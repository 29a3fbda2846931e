import TaskRunner.Proofs.Phrases
import TaskRunner.Proofs.Placement
import TaskRunner.Proofs.RoundTrip
import TaskRunner.Proofs.Underline

/-!
# The line that a misplaced phrase is reported on

Lines are counted in two ways. The number of a line comes from the line feeds before a phrase, and
the text that is shown comes from cutting the script into lines and counting these. The grammar has
a third way, in which a carriage return alone ends a line too. The first two agree wherever a phrase
starts (`Text.getElem?_lines`), because no phrase starts with a line feed: a diagnostic about the
first phrase that is out of place shows the line of that phrase and underlines its text
(`Script.parse_pointsAt`).
-/
namespace TaskRunner

open Grammar
open Text (StopsAt Blank byteLength isBlank trim)

/-! ## Places and lines -/

namespace Text

/-- The line of the place between `before` and `rest`: what stands between the line feeds on its two
sides, without a carriage return right before the second one. -/
def lineAround (before rest : List Char) : List Char :=
  let l := (before.reverse.takeWhile (· != '\n')).reverse ++ rest.takeWhile (· != '\n')
  if '\n' ∈ rest then withoutReturn l else l

/-- Whole lines before a place have nothing to do with the line that it is on. -/
theorem lineAround_append (l before rest : List Char) :
    lineAround (l ++ '\n' :: before) rest = lineAround before rest := by
  have hstop : StopsAt (· != '\n') ('\n' :: l.reverse) := by simp
  have hreverse : (l ++ '\n' :: before).reverse = before.reverse ++ '\n' :: l.reverse := by simp
  rw [lineAround, lineAround, hreverse, takeWhile_append_stop _ hstop]

theorem takeWhile_not_feed {l : List Char} (hl : '\n' ∉ l) {s : List Char}
    (hs : StopsAt (· != '\n') s) : (l ++ s).takeWhile (· != '\n') = l := by
  refine takeWhile_run (fun c hc => ?_) hs
  rw [bne_iff_ne]
  rintro rfl
  exact hl hc

/-- **The line of a place has the number that the line feeds before the place give it**, if there is
any text behind the place. -/
theorem getElem?_lines (before : List Char) {rest : List Char} (hne : rest ≠ []) :
    (lines (before ++ rest))[before.count '\n']? = some (lineAround before rest) := by
  induction before using lines_induction with
  | append l before hl ih =>
    -- the first line is over before the place
    have hcount : (l ++ '\n' :: before).count '\n' = before.count '\n' + 1 := by
      rw [List.count_append, List.count_eq_zero_of_not_mem hl, List.count_cons_self]
      omega
    rw [List.append_assoc, List.cons_append, lines_append hl, hcount, List.getElem?_cons_succ, ih,
      lineAround_append]
  | single before hfeed =>
    have hleft : (before.reverse.takeWhile (· != '\n')).reverse = before := by
      have hrun := takeWhile_not_feed (l := before.reverse) (by simpa using hfeed)
        (stopsAt_nil (p := (· != '\n')))
      rw [List.append_nil] at hrun
      rw [hrun, List.reverse_reverse]
    rw [List.count_eq_zero_of_not_mem hfeed, lineAround, hleft]
    by_cases hmem : '\n' ∈ rest
    · obtain ⟨l, t, rfl, hl⟩ := List.eq_append_cons_of_mem hmem
      have hright : (l ++ '\n' :: t).takeWhile (· != '\n') = l :=
        takeWhile_not_feed hl (by simp)
      rw [if_pos hmem, hright, ← List.append_assoc, lines_append (by simp [hfeed, hl])]
      rfl
    · have hright : rest.takeWhile (· != '\n') = rest := by
        have hrun := takeWhile_not_feed hmem (stopsAt_nil (p := (· != '\n')))
        rwa [List.append_nil] at hrun
      rw [if_neg hmem, hright, lines_single (by simp [hfeed, hmem]), if_neg (by simp [hne])]
      rfl

end Text

/-! ## Where phrases start -/

namespace Grammar

theorem isBlank_of_isLetter {c : Char} (h : isLetter c = true) : isBlank c = false := by
  simp only [isLetter, Bool.or_eq_true, Bool.and_eq_true, decide_eq_true_eq, Char.le_def,
    UInt32.le_iff_toNat_le] at h
  have hvalue : c.toNat = c.val.toNat := rfl
  have ha : 'a'.val.toNat = 97 := rfl
  have hz : 'z'.val.toNat = 122 := rfl
  have hA : 'A'.val.toNat = 65 := rfl
  have hZ : 'Z'.val.toNat = 90 := rfl
  simp only [isBlank, Bool.or_eq_false_iff, Bool.and_eq_false_iff, decide_eq_false_iff_not,
    beq_eq_false_iff_ne]
  omega

/-- A text that starts with a character that can be seen. -/
def Opens (s : List Char) : Prop := ∃ c w, s = c :: w ∧ isBlank c = false

theorem Token.IsName.opens {name : String} (h : Token.IsName name) (r : List Char) :
    Opens (name.toList ++ r) := by
  obtain ⟨c, w, hname, hc, -⟩ := h
  exact ⟨c, w ++ r, by rw [hname]; rfl, isBlank_of_isLetter hc⟩

theorem Parser.Takes.opens {expr : Parser Expr} {body : Parser (List Placed)} {s r : List Char}
    {phrase : Phrase} (h : Parser.Takes expr body s phrase r) : Opens s := by
  have hname {name : String} {u : List Char} (h : Token.name s = some (name, u)) : Opens s := by
    obtain ⟨hname, rfl, -⟩ := Token.name_eq_some_iff.1 h
    exact hname.opens u
  cases h with
  | help h =>
    obtain ⟨v, _, _, rfl, -⟩ := Token.helpBlock_eq_some_iff.1 h
    exact ⟨'@', _, rfl, by decide⟩
  | command _ => exact ⟨'$', _, rfl, by decide⟩
  | python _ => exact ⟨'>', _, rfl, by decide⟩
  | required _ => exact ⟨'<', _, rfl, by decide⟩
  | optional _ => exact ⟨'[', _, rfl, by decide⟩
  | exit h _ =>
    obtain ⟨rfl, -⟩ := Token.keyword_eq_some_iff.1 h
    exact ⟨'e', _, rfl, by decide⟩
  | yield h =>
    obtain ⟨rfl, -⟩ := Token.keyword_eq_some_iff.1 h
    exact ⟨'y', _, rfl, by decide⟩
  | block _ h _ _ _ _ => exact hname h
  | oneLine _ h _ _ => exact hname h
  | assign _ h _ _ => exact hname h

end Grammar

/-! ## The first phrase that is out of place -/

/-- The first phrase of a script that is out of place: there is nothing wrong with what stands
before it, and there is together with it. What is inside of a target comes before the target as a
whole. -/
inductive FirstMisfit (ps : List Placed) : Placed → Prop
  | outside {before behind : List Placed} {p : Placed} : ps = before ++ p :: behind →
    ¬ Violation before → (∀ name body, p.2 = .block name body → ¬ Violation [p]) →
    Violation (before ++ [p]) → FirstMisfit ps p
  | inside {before behind front back : List Placed} {s : List Char} {name : String} {q : Placed} :
    ps = before ++ (s, .block name (front ++ q :: back)) :: behind → ¬ Violation before →
    ¬ Violation [(s, .block name front)] → Violation [(s, .block name (front ++ [q]))] →
    FirstMisfit ps q

/-- What holds of every phrase of a script holds of the first one out of place. -/
theorem FirstMisfit.within {P : List Char → Phrase → Prop} {source : List Char} {ps : List Placed}
    {p : Placed} (h : FirstMisfit ps p) (hps : Parser.Within P source ps) :
    p.1 <:+ source ∧ P p.1 p.2 := by
  cases h with
  | outside he _ _ _ =>
    obtain ⟨hsuffix, hp⟩ := hps p (by simp [he])
    cases hp with
    | intro hp _ _ => exact ⟨hsuffix, hp⟩
  | @inside before behind front back s name _ he _ _ _ =>
    obtain ⟨hsuffix, htarget⟩ := hps (s, .block name (front ++ p :: back)) (by simp [he])
    cases htarget with
    | intro _ hinside hbody =>
      have hmem : p ∈ front ++ p :: back := by simp
      refine ⟨(hinside _ _ rfl p hmem).trans hsuffix, ?_⟩
      cases hbody _ _ rfl p hmem with
      | intro hp _ _ => exact hp

/-- A target that stands alone is out of place only if something inside of it is. -/
theorem not_violation_block_iff {s : List Char} {name : String} {body : List Placed}
    (source : List Char) (line : Nat) :
    ¬ Violation [(s, .block name body)] ↔
      ∃ t, TargetDecl.ofPhrases source name line body = .ok t := by
  have hiff : Script.Fits source (s, .block name body) ↔ _ := Script.fits_block_iff
  rw [TargetDecl.ofPhrases_isOk_iff, ← hiff]
  constructor
  · intro h
    by_contra hfits
    exact h (Script.violation_of_not_fits (List.mem_singleton_self _) hfits)
  · intro hfits h
    rcases Script.not_fits_of_violation source h with ⟨p, hp, hmisfit⟩ | hnames | hhelps
    · cases List.mem_singleton.1 hp
      exact hmisfit hfits
    · simp [targetNames, Phrase.targetName?] at hnames
    · simp [helpTexts, Phrase.helpText?] at hhelps

/-- **Step.** A target refuses a phrase with the line of the phrase. -/
theorem TargetDecl.accept_eq_error {t : TargetDecl} {line : Nat} {phrase : Phrase} {e : PlacedError}
    (h : t.accept line phrase = .error e) : e.1 = line := by
  cases phrase with
  | help text =>
    simp only [accept] at h
    split at h <;> cases h
    rfl
  | arg a =>
    simp only [accept] at h
    split at h <;> cases h
    rfl
  | oneLine | block =>
    cases h
    rfl
  | comment | assign | command | python | exit | yield => cases h

namespace Script

theorem addTarget_eq_error {s : Script} {t : TargetDecl} {e : PlacedError}
    (h : s.addTarget t = .error e) : e.1 = t.line := by
  unfold addTarget at h
  split at h <;> cases h
  rfl

/-- **Step.** So does a script, if there is nothing wrong inside of the phrase. -/
theorem accept_eq_error {source : List Char} {s : Script} {line : Nat} {phrase : Phrase}
    {e : PlacedError}
    (hinside : ∀ name body, phrase = .block name body →
      ∃ t, TargetDecl.ofPhrases source name line body = .ok t)
    (h : s.accept source line phrase = .error e) : e.1 = line := by
  cases phrase with
  | help text =>
    simp only [accept] at h
    split at h <;> cases h
    rfl
  | oneLine name command => exact addTarget_eq_error h
  | block name body =>
    obtain ⟨t, ht⟩ := hinside name body rfl
    simp only [accept, ht] at h
    rw [addTarget_eq_error h, (TargetDecl.ofPhrases_eq_ok ht).2]
  | command | python | arg | exit | yield =>
    cases h
    rfl
  | comment | assign => cases h

/-- **Run.** Phrases are refused with the line of the first one that is out of place. -/
theorem ofPhrases_of_firstMisfit (source : List Char) {ps : List Placed} {p : Placed}
    (h : FirstMisfit ps p) : ∃ m, ofPhrases source ps = .error (lineOf source p.1, m) := by
  cases h with
  | @outside before behind _ hps hbefore hinside hmisfit =>
    subst hps
    obtain ⟨s, hs⟩ : ∃ s, ofPhrases source before = .ok s := ofPhrases_isOk_iff.2 hbefore
    obtain ⟨e, he⟩ := exists_error_at hs fun hok => ofPhrases_isOk_iff.1 hok hmisfit
    have hline : e.1 = lineOf source p.1 := by
      refine accept_eq_error (fun name body hp => ?_) he
      have hblock := hinside name body hp
      obtain ⟨start, phrase⟩ := p
      cases hp
      exact (not_violation_block_iff source _).1 hblock
    exact ⟨e.2, hline ▸ foldlM_error_at behind hs he⟩
  | @inside before behind front back start name _ hps hbefore hfront hmisfit =>
    subst hps
    obtain ⟨s, hs⟩ : ∃ s, ofPhrases source before = .ok s := ofPhrases_isOk_iff.2 hbefore
    obtain ⟨t, ht⟩ := (not_violation_block_iff source (lineOf source start)).1 hfront
    obtain ⟨e, he⟩ := exists_error_at ht fun hok => (not_violation_block_iff source _).2 hok hmisfit
    have hline : e.1 = lineOf source p.1 := TargetDecl.accept_eq_error he
    have hbody : TargetDecl.ofPhrases source name (lineOf source start) (front ++ p :: back) =
        .error e := foldlM_error_at back ht he
    have htarget : s.accept source (lineOf source start) (.block name (front ++ p :: back)) =
        .error e := by
      simp only [accept, hbody]
    exact ⟨e.2, hline ▸ foldlM_error_at behind hs htarget⟩

/-- A phrase that is refused is the first one out of place, or has that one inside of it. -/
theorem exists_firstMisfit {source : List Char} {ps : List Placed} {e : PlacedError}
    (h : ofPhrases source ps = .error e) : ∃ p, FirstMisfit ps p := by
  obtain ⟨before, ⟨start, phrase⟩, behind, s, rfl, hs, he⟩ := foldlM_eq_error h
  have hbefore : ¬ Violation before := ofPhrases_isOk_iff.1 ⟨s, hs⟩
  by_cases hinside : ∃ name body, phrase = .block name body ∧ Violation [(start, phrase)]
  · obtain ⟨name, body, rfl, hviolation⟩ := hinside
    have hbody : ¬ ∃ t, TargetDecl.ofPhrases source name (lineOf source start) body = .ok t :=
      fun hok => (not_violation_block_iff source _).2 hok hviolation
    cases ht : TargetDecl.ofPhrases source name (lineOf source start) body with
    | ok t => exact absurd ⟨t, ht⟩ hbody
    | error e' =>
      obtain ⟨front, q, back, t, rfl, hfront, hq⟩ := foldlM_eq_error ht
      refine ⟨q, .inside rfl hbefore ((not_violation_block_iff source _).2 ⟨t, hfront⟩) ?_⟩
      by_contra hok
      obtain ⟨t', ht'⟩ := (not_violation_block_iff source (lineOf source start)).1 hok
      cases (foldlM_error_at [] hfront hq).symm.trans ht'
  · refine ⟨(start, phrase), .outside rfl hbefore (fun name body hp hviolation => ?_) ?_⟩
    · exact hinside ⟨name, body, hp, hviolation⟩
    · by_contra hok
      obtain ⟨s', hs'⟩ : ∃ s, ofPhrases source (before ++ [(start, phrase)]) = .ok s :=
        ofPhrases_isOk_iff.2 hok
      cases (foldlM_error_at [] hs he).symm.trans hs'

end Script

/-! ## What is shown -/

/-- A diagnostic is about the line on which `rest` starts behind `before`: it has the number and the
text of that line, which is not blank, and its columns are those of the first byte of the line's
text and of the byte behind it, where there are blanks on both sides of that text and none at its
ends. -/
structure Diagnostic.PointsAt (d : Diagnostic) (before rest : List Char) : Prop where
  line : d.line = 1 + before.count '\n'
  sourceLine : d.sourceLine = some (String.ofList (Text.lineAround before rest))
  not_blank : ¬ Blank (Text.lineAround before rest)
  columns : ∃ left right stop,
    Text.lineAround before rest = left ++ (trim (Text.lineAround before rest) ++ right) ∧
      Blank left ∧ Blank right ∧ StopsAt isBlank (trim (Text.lineAround before rest)) ∧
      StopsAt isBlank (trim (Text.lineAround before rest)).reverse ∧
      d.column = byteLength left + 1 ∧ d.columnEnd = some stop ∧
      stop = byteLength (left ++ trim (Text.lineAround before rest)) + 1 ∧ d.column < stop

theorem Text.not_blank_lineAround (before : List Char) {rest : List Char} (h : Opens rest) :
    ¬ Blank (lineAround before rest) := by
  obtain ⟨c, w, rfl, hc⟩ := h
  have hfeed : c ≠ '\n' := by
    rintro rfl
    cases hc
  have hline : ¬ Blank ((before.reverse.takeWhile (· != '\n')).reverse ++
      (c :: w).takeWhile (· != '\n')) := by
    intro hblank
    have hmem := hblank c (by simp [hfeed])
    rw [hc] at hmem
    cases hmem
  unfold lineAround
  split
  · -- a carriage return is blank itself
    rwa [← trim_eq_nil_iff, trim_withoutReturn, trim_eq_nil_iff]
  · exact hline

/-- A diagnostic about the line that the line feeds before a phrase count is about its line. -/
theorem Diagnostic.pointsAt_atLine (message : String) {source : String} {before rest : List Char}
    (hsource : source.toList = before ++ rest) (hrest : Opens rest) :
    (atLine message (1 + before.count '\n') source).PointsAt before rest := by
  obtain ⟨l, hl⟩ : ∃ l, Text.lineAround before rest = l := ⟨_, rfl⟩
  have hne : rest ≠ [] := by
    obtain ⟨c, w, rfl, -⟩ := hrest
    exact List.cons_ne_nil c w
  have hline : sourceLineAt source (1 + before.count '\n') = some (String.ofList l) := by
    rw [sourceLineAt, Nat.add_sub_cancel_left, hsource, Text.getElem?_lines before hne, hl]
    rfl
  have hblank : ¬ Blank (String.ofList l).toList := by
    rw [String.toList_ofList, ← hl]
    exact Text.not_blank_lineAround before hrest
  have hcolumn := column_atLine message hline
  obtain ⟨hpos, hcolumnEnd⟩ := columnEnd_atLine message hline hblank
  rw [String.toList_ofList] at hblank hcolumn hpos hcolumnEnd
  obtain ⟨right, hright, hcut⟩ := Text.eq_indent_trim l
  refine ⟨rfl, ?_, hl ▸ hblank, ?_⟩
  · simp [atLine, hline, hl]
  · rw [hl]
    refine ⟨_, right, _, hcut, Text.blank_indent l, hright, (Text.stopsAt_trim l).1,
      (Text.stopsAt_trim l).2, hcolumn, hcolumnEnd, ?_, ?_⟩
    · rw [Text.byteLength_append]
    · omega

theorem Script.parse_eq_error_of_phrases {source : String} {filename : Option String}
    {ps : List Placed} {d : Diagnostic} (hps : phrases? source.toList = some ps) :
    parse source filename = .error d ↔ ∃ e, ofPhrases source.toList ps = .error e ∧
      d = (Diagnostic.misplaced source e).withFilename filename := by
  rw [parse_of_phrases hps]
  cases h : ofPhrases source.toList ps <;> simp [Except.mapError, eq_comm]

/-- **The two ways to count lines agree.** If the grammar takes a text and a phrase is out of place,
the diagnostic is about the line on which the first such phrase starts. The number of that line is
one more than there are line feeds before the phrase, and its text is what stands between two line
feeds, less a carriage return before the second. The line is not blank, and the columns are those of
the first byte of its text without blanks and of the byte behind that, however lines end. -/
theorem Script.parse_pointsAt {source : String} {filename : Option String} {ps : List Placed}
    {d : Diagnostic} (hps : phrases? source.toList = some ps)
    (h : parse source filename = .error d) :
    (∃ p, FirstMisfit ps p) ∧
      ∀ p, FirstMisfit ps p → ∃ before, source.toList = before ++ p.1 ∧ d.PointsAt before p.1 := by
  have hwithin : Parser.Within (fun s _ => Opens s) source.toList ps :=
    Parser.phrases?_within (fun v => ⟨'#', v, rfl, by decide⟩) Parser.Takes.opens hps
  obtain ⟨e, he, hd⟩ := (parse_eq_error_of_phrases hps).1 h
  refine ⟨exists_firstMisfit he, fun p hp => ?_⟩
  obtain ⟨⟨before, hbefore⟩, hopens⟩ := hp.within hwithin
  obtain ⟨m, hm⟩ := ofPhrases_of_firstMisfit source.toList hp
  have hline : e = (1 + before.count '\n', m) := by
    rw [← hbefore, lineOf_append, hbefore] at hm
    exact Except.error.inj (he.symm.trans hm)
  refine ⟨before, hbefore.symm, ?_⟩
  obtain ⟨h1, h2, h3, h4⟩ := Diagnostic.pointsAt_atLine m.message hbefore.symm hopens
  rw [hd, hline]
  exact ⟨h1, h2, h3, h4⟩

/-- A script with every kind of line end, and one inside of a text. The line that is reported has
blanks on both sides. -/
def oddLines : String := "x = \"a\nb\"\r\n \tt \x7b\r <n>\r\t[n] \"é\" \r\n\x7d\n"

theorem parse_pointsAt_oddLines :
    ∃ ps d p before, phrases? oddLines.toList = some ps ∧ Script.parse oddLines none = .error d ∧
      FirstMisfit ps p ∧ oddLines.toList = before ++ p.1 ∧ d.PointsAt before p.1 ∧ d.line = 3 ∧
      d.sourceLine = some " \tt \x7b\r <n>\r\t[n] \"é\" " ∧ d.column = 3 ∧
      d.columnEnd = some 21 := by
  have hread : (phrases? oddLines.toList).isSome = true := by decide +kernel
  have hparse : Script.parse oddLines none =
      .error ⟨"Argument 'n' is already declared for 't'", 3, 3, some 21,
        some " \tt \x7b\r <n>\r\t[n] \"é\" ", none, none⟩ := by decide +kernel
  obtain ⟨ps, hps⟩ := Option.isSome_iff_exists.1 hread
  obtain ⟨⟨p, hfirst⟩, hpoints⟩ := Script.parse_pointsAt hps hparse
  obtain ⟨before, hsource, hd⟩ := hpoints p hfirst
  exact ⟨ps, _, p, before, hps, hparse, hfirst, hsource, hd, rfl, rfl, rfl, rfl⟩

end TaskRunner
