import TaskRunner.Proofs.Recognition
import TaskRunner.Proofs.TextLines
import TaskRunner.Script.Reader

/-!
# The lines of a help text

A help text loses its last line feed, which is meant to be the one before the closing `@@@`. It is
that one if the `@@@` stands on a line of its own. If there is a text before it on its line, the
line feed that goes is the one before that text, and the last two lines become one.
`help_lines_kept_iff` says that this is the only way in which a line of a help text is lost.
-/
namespace TaskRunner

open Grammar
open Text (StopsAt Blank trim trimmedLines)

/-! ## The text between the markers -/

namespace Grammar.Token

/-- The text ends a line, with `after` behind it. -/
def IsLineEnd (e after : List Char) : Prop :=
  e = ['\n'] ∨ e = ['\r', '\n'] ∨ e = ['\r'] ∧ StopsAt (· == '\n') after

/-- There is a help block at the start of a text: `@@@` with nothing but blanks behind it on its
line, the text up to the next `@@@`, and that `@@@` with the rest behind it. -/
inductive HelpBlock : List Char → List Char → List Char → Prop
  | intro {gap ending text rest : List Char} : Blanks gap →
    IsLineEnd ending (text ++ '@' :: '@' :: '@' :: rest) →
    ¬ ['@', '@', '@'] <:+: text ++ ['@', '@'] →
    HelpBlock ('@' :: '@' :: '@' :: (gap ++ (ending ++ (text ++ '@' :: '@' :: '@' :: rest))))
      text rest

variable {s t r e : List Char}

theorem lineEnd_iff : lineEnd s = some ((), r) ↔ ∃ e, s = e ++ r ∧ IsLineEnd e r := by
  rw [lineEnd_eq_some_iff]
  constructor
  · rintro (rfl | rfl | ⟨rfl, hr⟩)
    · exact ⟨['\n'], rfl, .inl rfl⟩
    · exact ⟨['\r', '\n'], rfl, .inr (.inl rfl)⟩
    · exact ⟨['\r'], rfl, .inr (.inr ⟨rfl, hr⟩)⟩
  · rintro ⟨e, rfl, rfl | rfl | ⟨rfl, hr⟩⟩
    · exact .inl rfl
    · exact .inr (.inl rfl)
    · exact .inr (.inr ⟨rfl, hr⟩)

theorem IsLineEnd.stopsAt_gap (h : IsLineEnd e r) : StopsAt isGap (e ++ r) := by
  rcases h with rfl | rfl | ⟨rfl, -⟩ <;> simp [isGap]

/-- Two of the three characters at the front are enough to see whether `@@@` begins before the
marker. -/
theorem marker_front_iff (t r : List Char) :
    ['@', '@'] <+: t ++ '@' :: '@' :: '@' :: r ↔ ['@', '@'] <+: t ++ ['@', '@'] := by
  have hfront : t ++ ['@', '@'] <+: t ++ '@' :: '@' :: '@' :: r := ⟨'@' :: r, by simp⟩
  constructor
  · intro h
    exact List.prefix_of_prefix_length_le h hfront (by simp)
  · intro h
    exact h.trans hfront

theorem marker_infix_cons (c : Char) (t r : List Char) :
    ['@', '@', '@'] <:+: c :: t ++ ['@', '@'] ↔
      (c = '@' ∧ ['@', '@'] <+: t ++ '@' :: '@' :: '@' :: r) ∨
        ['@', '@', '@'] <:+: t ++ ['@', '@'] := by
  rw [List.cons_append, List.infix_cons_iff, List.cons_prefix_cons, marker_front_iff, eq_comm]

/-- A help text goes up to the first `@@@`. -/
theorem helpText_eq_iff :
    helpText s = (t, '@' :: '@' :: '@' :: r) ↔
      s = t ++ '@' :: '@' :: '@' :: r ∧ ¬ ['@', '@', '@'] <:+: t ++ ['@', '@'] := by
  constructor
  · intro h
    fun_induction helpText s generalizing t with
    | case1 => cases h
    | case2 s =>
      cases h
      exact ⟨rfl, by decide⟩
    | case3 c s hne t' r' hs ih =>
      cases h
      obtain ⟨rfl, hfree⟩ := ih hs
      refine ⟨rfl, fun hmarker => ?_⟩
      rcases (marker_infix_cons c t' r).1 hmarker with ⟨rfl, w, hw⟩ | hmarker
      · exact hne w rfl hw.symm
      · exact hfree hmarker
  · rintro ⟨rfl, hfree⟩
    induction t with
    | nil => simp [helpText]
    | cons c t ih =>
      rw [marker_infix_cons c t r, not_or] at hfree
      rw [List.cons_append, helpText, ih hfree.2]
      rintro w rfl hw
      exact hfree.1 ⟨rfl, w, hw.symm⟩

/-- **What a help block is, and what it gives.** -/
theorem helpBlock_iff {text : String} :
    helpBlock s = some (text, r) ↔
      ∃ t, HelpBlock s t r ∧ text = String.ofList (dropLastLineFeed t) := by
  rw [helpBlock_eq_some_iff]
  constructor
  · rintro ⟨v, u, t, rfl, hu, ht, rfl⟩
    obtain ⟨rfl, hfree⟩ := helpText_eq_iff.1 ht
    obtain ⟨e, he, hend⟩ := lineEnd_iff.1 hu
    obtain ⟨gap, hgap, hv⟩ := afterGap_dropWhile v
    rw [he] at hv
    rw [hv]
    exact ⟨t, .intro hgap hend hfree, rfl⟩
  · rintro ⟨t, ⟨hgap, hend, hfree⟩, rfl⟩
    refine ⟨_, _, t, rfl, ?_, helpText_eq_iff.2 ⟨rfl, hfree⟩, rfl⟩
    rw [hgap.dropWhile_append hend.stopsAt_gap]
    exact lineEnd_iff.2 ⟨_, rfl, hend⟩

/-! ## The last line feed -/

/-- The last line feed of a text is between `left` and `right`, which are in the last two lines, and
the lines `before` those are whole. -/
structure LastFeed (text before left right : List Char) : Prop where
  eq : text = before ++ left ++ '\n' :: right
  whole : before = [] ∨ before.getLast? = some '\n'
  left_line : '\n' ∉ left
  right_line : '\n' ∉ right

/-- The last line feed has something on both sides of it. -/
def JoinsLines (text : List Char) : Prop :=
  ∃ before left right, LastFeed text before left right ∧ ¬ Blank left ∧ ¬ Blank right

theorem exists_last_of_mem {c : Char} {s : List Char} (h : c ∈ s) :
    ∃ x y, s = x ++ c :: y ∧ c ∉ y := by
  obtain ⟨y, x, hs, hy⟩ := List.eq_append_cons_of_mem (List.mem_reverse.2 h)
  refine ⟨x.reverse, y.reverse, ?_, by simpa using hy⟩
  have hreverse := congrArg List.reverse hs
  simpa using hreverse

theorem exists_lastFeed (h : '\n' ∈ t) : ∃ before left right, LastFeed t before left right := by
  obtain ⟨front, right, rfl, hright⟩ := exists_last_of_mem h
  by_cases hfront : '\n' ∈ front
  · obtain ⟨before, left, rfl, hleft⟩ := exists_last_of_mem hfront
    exact ⟨before ++ ['\n'], left, right, by simp, .inr (by simp), hleft, hright⟩
  · exact ⟨[], front, right, by simp, .inl rfl, hfront, hright⟩

theorem dropLastLineFeed_of_not_mem (h : '\n' ∉ t) : dropLastLineFeed t = t := by
  rw [dropLastLineFeed, List.erase_of_not_mem (by simpa using h), List.reverse_reverse]

namespace LastFeed

variable {before left right : List Char}

theorem dropLastLineFeed_eq (h : LastFeed t before left right) :
    dropLastLineFeed t = before ++ (left ++ right) := by
  have hright : '\n' ∉ right.reverse := by simpa using h.right_line
  rw [dropLastLineFeed, h.eq, List.reverse_append, List.reverse_cons, List.append_assoc,
    List.erase_append_right _ hright, List.singleton_append, List.erase_cons_head,
    List.reverse_append, List.reverse_reverse, List.reverse_reverse, List.append_assoc]

/-- What is behind the line feed is the end of the text. -/
theorem right_eq (h : LastFeed t before left right) :
    right = (t.reverse.takeWhile (· != '\n')).reverse := by
  have hright : ∀ c ∈ right.reverse, (c != '\n') = true := by
    intro c hc
    rw [bne_iff_ne]
    rintro rfl
    exact h.right_line (List.mem_reverse.1 hc)
  rw [h.eq, List.reverse_append, List.reverse_cons, List.append_assoc,
    Text.takeWhile_run hright (by simp), List.reverse_reverse]

/-- What follows whole lines does not run into them. -/
theorem trimmedLines_before (h : LastFeed t before left right) (w : List Char) :
    trimmedLines (before ++ w) = trimmedLines before ++ trimmedLines w := by
  rcases h.whole with hnil | hlast
  · rw [hnil]
    rfl
  · obtain ⟨lines, hlines⟩ := List.getLast?_eq_some_iff.1 hlast
    have hempty : trimmedLines [] = [] := rfl
    rw [hlines, List.append_assoc, List.singleton_append, Text.trimmedLines_append,
      Text.trimmedLines_append, hempty, List.append_nil]

theorem trimmedLines_text (h : LastFeed t before left right) :
    trimmedLines t = trimmedLines before ++ (trimmedLines left ++ trimmedLines right) := by
  rw [h.eq, List.append_assoc, h.trimmedLines_before, Text.trimmedLines_append]

theorem trimmedLines_dropped (h : LastFeed t before left right) :
    trimmedLines (dropLastLineFeed t) = trimmedLines before ++ trimmedLines (left ++ right) := by
  rw [h.dropLastLineFeed_eq, h.trimmedLines_before]

theorem joined_line (h : LastFeed t before left right) : '\n' ∉ left ++ right := by
  rw [List.mem_append, not_or]
  exact ⟨h.left_line, h.right_line⟩

/-- Nothing happens to the lines if one side of the line feed is blank. -/
theorem trimmedLines_kept (h : LastFeed t before left right) (hblank : Blank left ∨ Blank right) :
    trimmedLines (dropLastLineFeed t) = trimmedLines t := by
  rw [h.trimmedLines_dropped, h.trimmedLines_text, Text.trimmedLines_single h.joined_line,
    Text.trimmedLines_single h.left_line, Text.trimmedLines_single h.right_line]
  rcases hblank with hleft | hright
  · have hboth : Blank (left ++ right) ↔ Blank right := by
      rw [← Text.trim_eq_nil_iff, Text.trim_blank_append hleft, Text.trim_eq_nil_iff]
    simp only [hboth, hleft, if_true, Text.trim_blank_append hleft, List.nil_append]
  · have hboth : Blank (left ++ right) ↔ Blank left := by
      rw [← Text.trim_eq_nil_iff, Text.trim_append_blank _ hright, Text.trim_eq_nil_iff]
    simp only [hboth, hright, if_true, Text.trim_append_blank _ hright, List.append_nil]

/-- Otherwise two lines become one. -/
theorem trimmedLines_joined (h : LastFeed t before left right) (hleft : ¬ Blank left)
    (hright : ¬ Blank right) :
    trimmedLines t = trimmedLines before ++ [trim left, trim right] ∧
      trimmedLines (dropLastLineFeed t) = trimmedLines before ++ [trim (left ++ right)] := by
  have hboth : ¬ Blank (left ++ right) := by
    intro hblank
    exact hleft fun c hc => hblank c (List.mem_append_left _ hc)
  rw [h.trimmedLines_dropped, h.trimmedLines_text, Text.trimmedLines_single h.joined_line,
    Text.trimmedLines_single h.left_line, Text.trimmedLines_single h.right_line, if_neg hleft,
    if_neg hright, if_neg hboth]
  exact ⟨rfl, rfl⟩

end LastFeed

/-- The lines of a text are the same without its last line feed, unless that joins two of them. -/
theorem trimmedLines_dropLastLineFeed_iff (t : List Char) :
    trimmedLines (dropLastLineFeed t) = trimmedLines t ↔ ¬ JoinsLines t := by
  constructor
  · rintro heq ⟨before, left, right, hfeed, hleft, hright⟩
    obtain ⟨htext, hdropped⟩ := hfeed.trimmedLines_joined hleft hright
    have hlength := congrArg List.length heq
    rw [htext, hdropped] at hlength
    simp only [List.length_append, List.length_cons, List.length_nil] at hlength
    omega
  · intro hkeeps
    by_cases hfeed : '\n' ∈ t
    · obtain ⟨before, left, right, hfeed⟩ := exists_lastFeed hfeed
      apply hfeed.trimmedLines_kept
      by_contra hsides
      rw [not_or] at hsides
      exact hkeeps ⟨before, left, right, hfeed, hsides⟩
    · rw [dropLastLineFeed_of_not_mem hfeed]

end Grammar.Token

open Grammar.Token

theorem Grammar.Parser.run_helpBlock_iff {s r : List Char} {text : String} :
    Parser.helpBlock.run s = some (.help text, r) ↔
      ∃ t, HelpBlock s t r ∧ text = String.ofList (dropLastLineFeed t) := by
  rw [← helpBlock_iff]
  simp [Parser.helpBlock]

/-- **Which help texts keep their lines.** A help block is read whatever its text is. The lines of
what is read, without blanks around them and without those that are blank, are the lines of the text
exactly if its last line feed has nothing but blanks on one side, as it has if the closing `@@@`
stands on a line of its own. Otherwise the last two lines are one, and those before them are as they
were. -/
theorem help_lines_kept_iff (s : List Char) :
    (∀ text r, Parser.helpBlock.run s = some (.help text, r) → ∃ t, HelpBlock s t r) ∧
    ∀ t r, HelpBlock s t r → ∃ text, Parser.helpBlock.run s = some (.help text, r) ∧
      (trimmedLines text.toList = trimmedLines t ↔ ¬ JoinsLines t) ∧
      ∀ before left right, LastFeed t before left right → ¬ Blank left → ¬ Blank right →
        trimmedLines t = trimmedLines before ++ [trim left, trim right] ∧
          trimmedLines text.toList = trimmedLines before ++ [trim (left ++ right)] := by
  constructor
  · intro text r h
    obtain ⟨t, hblock, -⟩ := Parser.run_helpBlock_iff.1 h
    exact ⟨t, hblock⟩
  · intro t r hblock
    refine ⟨_, Parser.run_helpBlock_iff.2 ⟨t, hblock, rfl⟩, ?_, ?_⟩
    · rw [String.toList_ofList]
      exact trimmedLines_dropLastLineFeed_iff t
    · intro before left right hfeed hleft hright
      rw [String.toList_ofList]
      exact hfeed.trimmedLines_joined hleft hright

theorem help_lines_kept_indented :
    ∃ text, Parser.helpBlock.run
        ['@', '@', '@', ' ', '\n', '\t', 'a', '\r', '\n', '\t', '@', '@', '@', '#'] =
          some (.help text, ['#']) ∧
      trimmedLines text.toList = trimmedLines ['\t', 'a', '\r', '\n', '\t'] := by
  have hblock : HelpBlock
      ['@', '@', '@', ' ', '\n', '\t', 'a', '\r', '\n', '\t', '@', '@', '@', '#']
      ['\t', 'a', '\r', '\n', '\t'] ['#'] :=
    @HelpBlock.intro [' '] ['\n'] ['\t', 'a', '\r', '\n', '\t'] ['#']
      (by simp [Blanks, isGap]) (.inl rfl) (by decide)
  obtain ⟨text, hrun, hlines, -⟩ := (help_lines_kept_iff _).2 _ _ hblock
  refine ⟨text, hrun, hlines.2 ?_⟩
  -- the last line is the indent of the marker
  rintro ⟨before, left, right, hfeed, -, hright⟩
  apply hright
  rw [hfeed.right_eq]
  decide

/-- The closing marker right behind the last line of the text makes one line of two. -/
theorem help_lines_joined :
    HelpBlock ['@', '@', '@', '\n', 'a', '\n', 'b', '@', '@', '@'] ['a', '\n', 'b'] [] ∧
      Parser.helpBlock.run ['@', '@', '@', '\n', 'a', '\n', 'b', '@', '@', '@'] =
        some (.help "ab", []) ∧
      Script.parse "@@@\na\nb@@@" none = .ok ⟨some "ab", []⟩ ∧
      trimmedLines ['a', '\n', 'b'] = [['a'], ['b']] ∧
      trimmedLines "ab".toList = [['a', 'b']] :=
  ⟨@HelpBlock.intro [] ['\n'] ['a', '\n', 'b'] [] (by simp [Blanks]) (.inl rfl) (by decide), rfl,
    rfl, by decide +kernel, by decide +kernel⟩

end TaskRunner
