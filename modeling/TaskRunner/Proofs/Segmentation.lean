import TaskRunner.Proofs.Text
import TaskRunner.Template.Basic

/-!
# Templates as segments

The scan of a template carries a mode, a token and an output through the text. This file gives the
other view: a template is a row of segments, each of which stands for a text of its own, and the
rendered command is those texts in a row. A template has exactly one such segmentation, which no
context has a part in (`Segmentation.eq`, `exists_segmentation`), and the scan takes one segment
after the other off the template (`between_inner`, `between_closing`). `render_eq_segments` puts the
two together.
-/
namespace TaskRunner

inductive Segment where
  /-- A character other than `$`. -/
  | plain (c : Char)
  /-- `$$`. -/
  | dollar
  /-- `$(key)`. -/
  | bracketed (key : List Char)
  /-- `$key` and the character that ends it. -/
  | bare (key : List Char) (stop : Char)
  /-- `$key` at the end of the template. -/
  | lastBare (key : List Char)
  /-- `$(key` at the end of the template. -/
  | lastBracketed (key : List Char)
deriving DecidableEq, Repr

namespace Segment

/-- What a segment is written as. -/
def source : Segment → List Char
  | .plain c => [c]
  | .dollar => ['$', '$']
  | .bracketed key => '$' :: '(' :: key ++ [')']
  | .bare key stop => '$' :: key ++ [stop]
  | .lastBare key => '$' :: key
  | .lastBracketed key => '$' :: '(' :: key

/-- What a segment gives in a context. An open bracket at the end with nothing in it gives nothing,
while an empty key elsewhere is resolved like any other. -/
def expand (ctx : Context) : Segment → String
  | .plain c => String.singleton c
  | .dollar => "$"
  | .bracketed key => ctx.resolve key
  | .bare key stop => ctx.resolve key ++ String.singleton stop
  | .lastBare key => ctx.resolve key
  | .lastBracketed key => if key = [] then "" else ctx.resolve key

/-- A character of a key without brackets. -/
def KeyChar (c : Char) : Prop :=
  ('a' ≤ c ∧ c ≤ 'z') ∨ ('A' ≤ c ∧ c ≤ 'Z') ∨ ('0' ≤ c ∧ c ≤ '9') ∨ c = '_' ∨ c = '@'

/-- A segment that may stand anywhere. -/
def Inner : Segment → Prop
  | .plain c => c ≠ '$'
  | .dollar => True
  | .bracketed key => ')' ∉ key
  | .bare key stop =>
    (∀ c ∈ key, KeyChar c) ∧ ¬ KeyChar stop ∧ (key = [] → stop ≠ '$' ∧ stop ≠ '(')
  | .lastBare _ => False
  | .lastBracketed _ => False

/-- A segment that needs the end of the template to end it. -/
def Closing : Segment → Prop
  | .lastBare key => key ≠ [] ∧ ∀ c ∈ key, KeyChar c
  | .lastBracketed key => ')' ∉ key
  | _ => False

theorem isBareChar_iff {c : Char} : Template.isBareChar c = true ↔ KeyChar c := by
  simp only [Template.isBareChar, Grammar.isNameChar, Grammar.isLetter, Grammar.isDigit, KeyChar,
    Bool.or_eq_true, Bool.and_eq_true, decide_eq_true_eq, beq_iff_eq, or_assoc]

theorem inner_bare_iff {key : List Char} {stop : Char} :
    (Segment.bare key stop).Inner ↔ (∀ c ∈ key, Template.isBareChar c = true) ∧
      Template.isBareChar stop = false ∧ (key = [] → stop ≠ '$' ∧ stop ≠ '(') := by
  simp only [Inner, ← isBareChar_iff, Bool.not_eq_true]

theorem closing_lastBare_iff {key : List Char} :
    (Segment.lastBare key).Closing ↔ key ≠ [] ∧ ∀ c ∈ key, Template.isBareChar c = true := by
  simp only [Closing, ← isBareChar_iff]

end Segment

namespace Template

/-- Segments in a row of which only the last may need the end of the template, and that only if no
`$` is left behind it. -/
def Proper (marker : Bool) : List Segment → Prop
  | [] => True
  | p :: rest => (p.Inner ∧ Proper marker rest) ∨ (p.Closing ∧ rest = [] ∧ marker = false)

/-- The text of segments in a row and of the single `$` that may be left behind them. -/
def sourceOf (marker : Bool) (parts : List Segment) : List Char :=
  parts.flatMap Segment.source ++ if marker then ['$'] else []

/-- A way to cut a template into segments, with a single `$` left at the end or not. -/
structure Segmentation (s : List Char) where
  parts : List Segment
  marker : Bool
  proper : Proper marker parts
  source_eq : sourceOf marker parts = s

/-- What a segmentation gives in a context. -/
def Segmentation.output {s : List Char} (k : Segmentation s) (ctx : Context) :
    Except TemplateError String :=
  if k.marker then .error .unterminatedMarker
  else .ok (String.join (k.parts.map (Segment.expand ctx)))

theorem sourceOf_cons (marker : Bool) (p : Segment) (parts : List Segment) :
    sourceOf marker (p :: parts) = p.source ++ sourceOf marker parts := by
  simp [sourceOf]

/-! ## Every template has a segmentation -/

/-- A text is a run of characters that pass a test, or goes on behind such a run with one that
fails it. -/
theorem run_cases (p : Char → Bool) (s : List Char) :
    (∀ c ∈ s, p c = true) ∨
      ∃ w stop after, s = w ++ stop :: after ∧ (∀ c ∈ w, p c = true) ∧ p stop = false := by
  cases h : s.dropWhile p with
  | nil => exact .inl (List.dropWhile_eq_nil_iff.1 h)
  | cons stop after =>
    refine .inr ⟨s.takeWhile p, stop, after, ?_, fun c hc => List.mem_takeWhile_imp hc, ?_⟩
    · rw [← h, List.takeWhile_append_dropWhile]
    · have hs := Text.stopsAt_dropWhile p s
      rwa [h, Text.stopsAt_cons] at hs

/-- What a `$` that is not the last character is the start of. -/
theorem marker_cases (c : Char) (rest : List Char) :
    (∃ p r, Segment.Inner p ∧ '$' :: c :: rest = p.source ++ r) ∨
      ∃ p, Segment.Closing p ∧ '$' :: c :: rest = p.source := by
  by_cases hd : c = '$'
  · subst hd
    exact .inl ⟨.dollar, rest, trivial, rfl⟩
  by_cases hb : c = '('
  · subst hb
    rcases run_cases (· != ')') rest with hall | ⟨key, stop, after, rfl, hkey, hstop⟩
    · exact .inr ⟨.lastBracketed rest, fun h => by simpa using hall _ h, rfl⟩
    · have hc : stop = ')' := by simpa using hstop
      subst hc
      exact .inl ⟨.bracketed key, after, fun h => by simpa using hkey _ h, by simp [Segment.source]⟩
  rcases run_cases isBareChar (c :: rest) with hall | ⟨key, stop, after, he, hkey, hstop⟩
  · exact .inr ⟨.lastBare (c :: rest), Segment.closing_lastBare_iff.2 ⟨by simp, hall⟩, rfl⟩
  · refine .inl ⟨.bare key stop, after, Segment.inner_bare_iff.2 ⟨hkey, hstop, ?_⟩,
      by simp [Segment.source, he]⟩
    rintro rfl
    cases he
    exact ⟨hd, hb⟩

theorem first_cases (s : List Char) :
    s = [] ∨ s = ['$'] ∨ (∃ p r, Segment.Inner p ∧ s = p.source ++ r) ∨
      ∃ p, Segment.Closing p ∧ s = p.source := by
  match s with
  | [] => exact .inl rfl
  | [c] =>
    by_cases hc : c = '$'
    · subst hc; exact .inr (.inl rfl)
    · exact .inr (.inr (.inl ⟨.plain c, [], hc, rfl⟩))
  | c :: d :: rest =>
    by_cases hc : c = '$'
    · subst hc; exact .inr (.inr (marker_cases d rest))
    · exact .inr (.inr (.inl ⟨.plain c, d :: rest, hc, rfl⟩))

theorem source_length_pos {p : Segment} : 0 < p.source.length := by
  cases p <;> simp [Segment.source]

theorem exists_segmentation (s : List Char) : Nonempty (Segmentation s) := by
  -- by induction on the length: what is left after the first segment is shorter
  induction hn : s.length using Nat.strongRecOn generalizing s with
  | _ n ih =>
  rcases first_cases s with rfl | rfl | ⟨p, r, hp, rfl⟩ | ⟨p, hp, rfl⟩
  · exact ⟨⟨[], false, trivial, rfl⟩⟩
  · exact ⟨⟨[], true, trivial, rfl⟩⟩
  · have hlt : r.length < n := by
      have := source_length_pos (p := p)
      simp at hn
      omega
    obtain ⟨k⟩ := ih r.length hlt r rfl
    exact ⟨⟨p :: k.parts, k.marker, .inl ⟨hp, k.proper⟩, by rw [sourceOf_cons, k.source_eq]⟩⟩
  · exact ⟨⟨[p], false, .inr ⟨hp, rfl, rfl⟩, by simp [sourceOf]⟩⟩

/-! ## No template has two -/

/-- The first segment of a template and what is left after it. -/
def first? : List Char → Option (Segment × List Char)
  | [] => none
  | ['$'] => none
  | '$' :: '$' :: rest => some (.dollar, rest)
  | '$' :: '(' :: rest =>
    match rest.dropWhile (· != ')') with
    | [] => some (.lastBracketed rest, [])
    | _ :: after => some (.bracketed (rest.takeWhile (· != ')')), after)
  | '$' :: c :: rest =>
    match (c :: rest).dropWhile isBareChar with
    | [] => some (.lastBare (c :: rest), [])
    | stop :: after => some (.bare ((c :: rest).takeWhile isBareChar) stop, after)
  | c :: rest => some (.plain c, rest)

theorem first?_bare {c : Char} (hd : c ≠ '$') (hb : c ≠ '(') (rest : List Char) :
    first? ('$' :: c :: rest) =
      match (c :: rest).dropWhile isBareChar with
      | [] => some (.lastBare (c :: rest), [])
      | stop :: after => some (.bare ((c :: rest).takeWhile isBareChar) stop, after) := by
  rw [first?]
  · simpa using hd
  · simpa using hb

theorem ne_of_isBareChar {c : Char} (h : isBareChar c = true) : c ≠ '$' ∧ c ≠ '(' := by
  constructor <;> (rintro rfl; exact absurd h (by decide))

theorem first?_inner {p : Segment} (hp : p.Inner) (r : List Char) :
    first? (p.source ++ r) = some (p, r) := by
  cases p with
  | plain c => cases r <;> simp_all [first?, Segment.source, Segment.Inner]
  | dollar => rfl
  | bracketed key =>
    have hkey : ∀ c ∈ key, (c != ')') = true := fun c hc => by
      simp only [bne_iff_ne]; rintro rfl; exact hp hc
    have hstop : Text.StopsAt (· != ')') (')' :: r) := by simp
    simp [first?, Segment.source, Text.dropWhile_run hkey hstop, Text.takeWhile_run hkey hstop]
  | bare key stop =>
    obtain ⟨hkey, hstop, hne⟩ := Segment.inner_bare_iff.1 hp
    have hs : Text.StopsAt isBareChar (stop :: r) := by simpa using hstop
    have he : (Segment.bare key stop).source ++ r = '$' :: (key ++ stop :: r) := by
      simp [Segment.source]
    rw [he]
    cases key with
    | nil => rw [List.nil_append, first?_bare (hne rfl).1 (hne rfl).2]; simp [hstop]
    | cons c key =>
      obtain ⟨hd, hb⟩ := ne_of_isBareChar (hkey c (by simp))
      rw [List.cons_append, first?_bare hd hb, ← List.cons_append, Text.dropWhile_run hkey hs,
        Text.takeWhile_run hkey hs]
  | lastBare key => cases hp
  | lastBracketed key => cases hp

theorem first?_closing {p : Segment} (hp : p.Closing) : first? p.source = some (p, []) := by
  cases p with
  | lastBare key =>
    obtain ⟨hne, hkey⟩ := Segment.closing_lastBare_iff.1 hp
    cases key with
    | nil => exact absurd rfl hne
    | cons c key =>
      obtain ⟨hd, hb⟩ := ne_of_isBareChar (hkey c (by simp))
      rw [Segment.source, first?_bare hd hb, List.dropWhile_eq_nil_iff.2 hkey]
  | lastBracketed key =>
    have hkey : key.dropWhile (· != ')') = [] := List.dropWhile_eq_nil_iff.2 fun c hc => by
      simp only [bne_iff_ne]; rintro rfl; exact hp hc
    simp [first?, Segment.source, hkey]
  | plain _ | dollar | bracketed _ | bare _ _ => cases hp

theorem first?_sourceOf_nil (marker : Bool) : first? (sourceOf marker []) = none := by
  cases marker <;> rfl

theorem first?_sourceOf_cons {marker : Bool} {p : Segment} {parts : List Segment}
    (h : Proper marker (p :: parts)) :
    first? (sourceOf marker (p :: parts)) = some (p, sourceOf marker parts) := by
  rcases h with ⟨hp, -⟩ | ⟨hp, rfl, rfl⟩
  · rw [sourceOf_cons, first?_inner hp]
  · simpa [sourceOf] using first?_closing hp

theorem Proper.tail {marker : Bool} {p : Segment} {parts : List Segment}
    (h : Proper marker (p :: parts)) : Proper marker parts := by
  rcases h with ⟨-, h⟩ | ⟨-, rfl, rfl⟩
  · exact h
  · trivial

theorem sourceOf_injective : ∀ {m n : Bool} {ps qs : List Segment}, Proper m ps → Proper n qs →
    sourceOf m ps = sourceOf n qs → ps = qs ∧ m = n
  | m, n, [], [], _, _, h => by cases m <;> cases n <;> simp_all [sourceOf]
  | m, n, [], q :: qs, _, hq, h => by
    have := first?_sourceOf_cons hq
    rw [← h, first?_sourceOf_nil] at this
    cases this
  | m, n, p :: ps, [], hp, _, h => by
    have := first?_sourceOf_cons hp
    rw [h, first?_sourceOf_nil] at this
    cases this
  | m, n, p :: ps, q :: qs, hp, hq, h => by
    have hf := first?_sourceOf_cons hp
    rw [h, first?_sourceOf_cons hq] at hf
    obtain ⟨rfl, hs⟩ := Prod.mk.inj (Option.some.inj hf)
    obtain ⟨rfl, rfl⟩ := sourceOf_injective hp.tail hq.tail hs.symm
    exact ⟨rfl, rfl⟩

theorem Segmentation.eq {s : List Char} (k l : Segmentation s) : k = l := by
  obtain ⟨ps, m, hp, rfl⟩ := k
  obtain ⟨qs, n, hq, h⟩ := l
  obtain ⟨rfl, rfl⟩ := sourceOf_injective hp hq h.symm
  rfl

/-! ## The scan takes one segment after the other -/

/-- The scan between two segments: the token is empty, `out` is the output so far and `s` is what is
left of the template. -/
def between (ctx : Context) (out : String) (s : List Char) : Except TemplateError String :=
  scan ctx .literal "" out s

variable (ctx : Context)

theorem scan_literal {c : Char} (hc : c ≠ '$') (tok out : String) (rest : List Char) :
    scan ctx .literal tok out (c :: rest) = scan ctx .literal tok (out.push c) rest := by
  rw [scan.eq_def]; simp [hc]

theorem scan_open (tok out : String) (rest : List Char) :
    scan ctx .literal tok out ('$' :: '(' :: rest) = scan ctx .bracketed tok out rest := rfl

theorem scan_nil (mode : Mode) (tok out : String) : scan ctx mode tok out [] =
    .ok (if tok.isEmpty then out else out ++ ctx.resolve tok.toList) := by
  cases mode <;> rfl

theorem scan_close (tok out : String) (rest : List Char) :
    scan ctx .bracketed tok out (')' :: rest) =
      between ctx (out ++ ctx.resolve tok.toList) rest := rfl

theorem scan_inside {c : Char} (hc : c ≠ ')') (tok out : String) (rest : List Char) :
    scan ctx .bracketed tok out (c :: rest) = scan ctx .bracketed (tok.push c) out rest :=
  if_neg hc

theorem scan_key {c : Char} (hc : isBareChar c = true) (tok out : String) (rest : List Char) :
    scan ctx .bare tok out (c :: rest) = scan ctx .bare (tok.push c) out rest :=
  if_pos hc

theorem scan_stop {c : Char} (hc : isBareChar c ≠ true) (tok out : String) (rest : List Char) :
    scan ctx .bare tok out (c :: rest) =
      between ctx ((out ++ ctx.resolve tok.toList).push c) rest :=
  if_neg hc

theorem scan_bracketed {key : List Char} (hkey : ')' ∉ key) (tok out : String) (r : List Char) :
    scan ctx .bracketed tok out (key ++ ')' :: r) =
      between ctx (out ++ ctx.resolve (tok.toList ++ key)) r := by
  induction key generalizing tok with
  | nil => simp [scan_close]
  | cons c key ih =>
    obtain ⟨hc, hkey⟩ : c ≠ ')' ∧ ')' ∉ key := by simpa [eq_comm] using hkey
    rw [List.cons_append, scan_inside ctx hc, ih hkey, String.toList_push]
    simp

theorem scan_bracketed_end {key : List Char} (hkey : ')' ∉ key) (tok out : String) :
    scan ctx .bracketed tok out key =
      .ok (if tok.toList ++ key = [] then out else out ++ ctx.resolve (tok.toList ++ key)) := by
  induction key generalizing tok with
  | nil => simp [scan_nil]
  | cons c key ih =>
    obtain ⟨hc, hkey⟩ : c ≠ ')' ∧ ')' ∉ key := by simpa [eq_comm] using hkey
    rw [scan_inside ctx hc, ih hkey, String.toList_push]
    simp

theorem scan_bare {key : List Char} {stop : Char} (hkey : ∀ c ∈ key, isBareChar c = true)
    (hstop : isBareChar stop = false) (tok out : String) (r : List Char) :
    scan ctx .bare tok out (key ++ stop :: r) =
      between ctx (out ++ ctx.resolve (tok.toList ++ key) ++ String.singleton stop) r := by
  induction key generalizing tok with
  | nil => simp [scan_stop ctx (ne_true_of_eq_false hstop)]
  | cons c key ih =>
    obtain ⟨hc, hkey⟩ := List.forall_mem_cons.1 hkey
    rw [List.cons_append, scan_key ctx hc, ih hkey, String.toList_push]
    simp

theorem scan_bare_end {key : List Char} (hkey : ∀ c ∈ key, isBareChar c = true)
    (tok out : String) :
    scan ctx .bare tok out key =
      .ok (if tok.toList ++ key = [] then out else out ++ ctx.resolve (tok.toList ++ key)) := by
  induction key generalizing tok with
  | nil => simp [scan_nil]
  | cons c key ih =>
    obtain ⟨hc, hkey⟩ := List.forall_mem_cons.1 hkey
    rw [scan_key ctx hc, ih hkey, String.toList_push]
    simp

/-- A `$` before a character that is neither `$` nor `(` starts a key without brackets. -/
theorem between_bare {c : Char} (hd : c ≠ '$') (hb : c ≠ '(') (out : String) (rest : List Char) :
    between ctx out ('$' :: c :: rest) = scan ctx .bare "" out (c :: rest) := by
  rw [between, scan.eq_def]
  simp

/-- **Step.** A segment that may stand anywhere is taken off the template, and adds its text to the
output. -/
theorem between_inner {p : Segment} (hp : p.Inner) (out : String) (r : List Char) :
    between ctx out (p.source ++ r) = between ctx (out ++ p.expand ctx) r := by
  cases p with
  | plain c => exact (scan_literal ctx hp "" out r).trans (by rw [String.push_eq_append]; rfl)
  | dollar => rfl
  | bracketed key =>
    have := scan_bracketed ctx hp "" out r
    simpa [Segment.source, Segment.expand, between, scan_open] using this
  | bare key stop =>
    obtain ⟨hkey, hstop, hne⟩ := Segment.inner_bare_iff.1 hp
    have he : (Segment.bare key stop).source ++ r = '$' :: (key ++ stop :: r) := by
      simp [Segment.source]
    have hrun := scan_bare ctx hkey hstop "" out r
    rw [he, Segment.expand, ← String.append_assoc]
    cases key with
    | nil => rw [List.nil_append, between_bare ctx (hne rfl).1 (hne rfl).2]; exact hrun
    | cons c key =>
      obtain ⟨hd, hb⟩ := ne_of_isBareChar (hkey c (by simp))
      rw [List.cons_append, between_bare ctx hd hb]; exact hrun
  | lastBare key => cases hp
  | lastBracketed key => cases hp

/-- **Last step.** A segment that needs the end of the template ends the scan with its text. -/
theorem between_closing {p : Segment} (hp : p.Closing) (out : String) :
    between ctx out p.source = .ok (out ++ p.expand ctx) := by
  cases p with
  | lastBare key =>
    obtain ⟨hne, hkey⟩ := Segment.closing_lastBare_iff.1 hp
    have hrun := scan_bare_end ctx hkey "" out
    cases key with
    | nil => exact absurd rfl hne
    | cons c key =>
      obtain ⟨hd, hb⟩ := ne_of_isBareChar (hkey c (by simp))
      rw [Segment.source, between_bare ctx hd hb, hrun]
      simp [Segment.expand]
  | lastBracketed key =>
    have hrun := scan_bracketed_end ctx hp "" out
    have he : between ctx out (Segment.lastBracketed key).source = scan ctx .bracketed "" out key :=
      rfl
    rw [he, hrun, Segment.expand]
    by_cases hk : key = [] <;> simp [hk]
  | plain _ | dollar | bracketed _ | bare _ _ => cases hp

/-- **Run.** From one segment boundary to the end of the template. -/
theorem between_sourceOf {marker : Bool} : ∀ {parts : List Segment}, Proper marker parts →
    ∀ out : String, between ctx out (sourceOf marker parts) =
      if marker then .error .unterminatedMarker
      else .ok (out ++ String.join (parts.map (Segment.expand ctx)))
  | [], _, out => by
    cases marker with
    | true => rfl
    | false => simp [sourceOf, between, scan_nil]
  | p :: parts, .inl ⟨hp, hrest⟩, out => by
    rw [sourceOf_cons, between_inner ctx hp, between_sourceOf hrest]
    simp [String.append_assoc]
  | p :: _, .inr ⟨hp, hnil, hmarker⟩, out => by
    subst hnil hmarker
    simpa [sourceOf] using between_closing ctx hp out

theorem render_eq_output {template : String} (k : Segmentation template.toList) (ctx : Context) :
    render ctx template = k.output ctx := by
  have hrun := between_sourceOf ctx k.proper ""
  rw [k.source_eq] at hrun
  simpa [Segmentation.output, render, between] using hrun

/-- **Rendering is the text of the segments in a row.** A template has one segmentation, whatever
the context, and every context gives the texts of its segments in their order. Only a segmentation
that leaves a single `$` is an error, and then in every context. -/
theorem render_eq_segments (template : String) :
    ∃ k : Segmentation template.toList, (∀ l : Segmentation template.toList, l = k) ∧
      (∀ ctx, render ctx template = k.output ctx) ∧
      ∀ ctx, render ctx template = .error .unterminatedMarker ↔ k.marker = true := by
  obtain ⟨k⟩ := exists_segmentation template.toList
  refine ⟨k, fun l => l.eq k, render_eq_output k, fun ctx => ?_⟩
  rw [render_eq_output k, Segmentation.output]
  cases k.marker <;> simp

end Template

end TaskRunner
