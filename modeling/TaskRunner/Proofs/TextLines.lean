import TaskRunner.Proofs.Text
import TaskRunner.Text.Blank
import TaskRunner.Text.Lines

/-!
# Lines and the blanks around them

A line that is not blank is its indent, its text without blanks at either end, and the blanks behind
that. `trimmedLines` are the texts of the lines that have one. Line feeds cut a text into parts that
have nothing to do with each other (`trimmedLines_append`), and it makes no difference whether there
is a carriage return before a line feed. Blanks around the whole text only make for blank lines at
its start and its end (`lineTexts_trim`).
-/
namespace TaskRunner.Text

/-- There is nothing but blanks in the text. -/
def Blank (s : List Char) : Prop := ∀ c ∈ s, isBlank c = true

instance (s : List Char) : Decidable (Blank s) :=
  decidable_of_iff (s.all isBlank = true) List.all_eq_true

@[simp] theorem blank_nil : Blank [] := by simp [Blank]

/-- The blanks at the start of a line. -/
def indent (s : List Char) : List Char := s.takeWhile isBlank

/-- A line without the carriage return that belongs to the line end behind it. -/
def withoutReturn (s : List Char) : List Char := if s.getLast? = some '\r' then s.dropLast else s

/-- The lines that are not blank, without the blanks around them. -/
def trimmedLines (s : List Char) : List (List Char) :=
  ((lines s).map trim).filter fun l => !l.isEmpty

/-! ## One line -/

theorem StopsAt.front {p : Char → Bool} {w s : List Char} (h : StopsAt p s) (hw : w <+: s) :
    StopsAt p w := by
  obtain ⟨t, rfl⟩ := hw
  cases w with
  | nil => exact stopsAt_nil
  | cons c w => exact h

theorem trimEnd_front (s : List Char) : trimEnd s <+: s := by
  have hsuffix := List.dropWhile_suffix isBlank (l := s.reverse)
  rwa [← List.reverse_prefix, List.reverse_reverse] at hsuffix

theorem mem_of_mem_trim {s : List Char} {c : Char} (h : c ∈ trim s) : c ∈ s :=
  (List.dropWhile_suffix isBlank).mem ((trimEnd_front _).mem h)

/-- A text is its indent, what is left without the blanks around it, and the blanks behind that. -/
theorem eq_indent_trim (s : List Char) :
    ∃ behind, Blank behind ∧ s = indent s ++ (trim s ++ behind) := by
  have hcut (w : List Char) : w = trimEnd w ++ (w.reverse.takeWhile isBlank).reverse := by
    rw [trimEnd, ← List.reverse_append, List.takeWhile_append_dropWhile, List.reverse_reverse]
  refine ⟨((trimStart s).reverse.takeWhile isBlank).reverse, fun c hc => ?_, ?_⟩
  · exact List.mem_takeWhile_imp (List.mem_reverse.1 hc)
  · rw [trim, ← hcut]
    exact List.takeWhile_append_dropWhile.symm

theorem blank_indent (s : List Char) : Blank (indent s) :=
  fun _ hc => List.mem_takeWhile_imp hc

/-- There is no blank at either end of a text without the blanks around it. -/
theorem stopsAt_trim (s : List Char) :
    StopsAt isBlank (trim s) ∧ StopsAt isBlank (trim s).reverse := by
  constructor
  · exact (stopsAt_dropWhile isBlank s).front (trimEnd_front _)
  · rw [trim, trimEnd, List.reverse_reverse]
    exact stopsAt_dropWhile isBlank _

theorem trimEnd_append_blank (s : List Char) {w : List Char} (h : Blank w) :
    trimEnd (s ++ w) = trimEnd s := by
  unfold trimEnd
  rw [List.reverse_append, List.dropWhile_append_of_pos]
  intro c hc
  exact h c (List.mem_reverse.1 hc)

theorem trimStart_blank {w : List Char} (h : Blank w) : trimStart w = [] :=
  List.dropWhile_eq_nil_iff.2 h

theorem trim_blank_append {w : List Char} (h : Blank w) (s : List Char) :
    trim (w ++ s) = trim s := by
  rw [trim, trimStart, List.dropWhile_append_of_pos h]
  rfl

theorem trim_append_blank (s : List Char) {w : List Char} (h : Blank w) :
    trim (s ++ w) = trim s := by
  by_cases hs : Blank s
  · -- nothing is left on either side
    rw [trim_blank_append hs, trim, trim, trimStart_blank h, trimStart_blank hs]
  · have hne : s.dropWhile isBlank ≠ [] := by
      intro hnil
      exact hs (List.dropWhile_eq_nil_iff.1 hnil)
    rw [trim, trim, trimStart, trimStart, List.dropWhile_append, if_neg (by simpa using hne)]
    exact trimEnd_append_blank _ h

theorem trim_eq_nil_iff {s : List Char} : trim s = [] ↔ Blank s := by
  constructor
  · intro h
    have hstart : trimStart s = [] := by
      -- otherwise the first character behind the indent is left
      cases hs : trimStart s with
      | nil => rfl
      | cons c w =>
        have hstop := stopsAt_dropWhile isBlank s
        rw [trimStart] at hs
        rw [hs, stopsAt_cons] at hstop
        rw [trim, trimStart, hs, trimEnd, List.reverse_eq_nil_iff, List.dropWhile_eq_nil_iff] at h
        have hc := h c (by simp)
        rw [hstop] at hc
        cases hc
    exact List.dropWhile_eq_nil_iff.1 hstart
  · intro h
    rw [trim, trimStart_blank h]
    rfl

/-- A line that is not blank ends, but for blanks, with its text. -/
theorem trimEnd_eq {s : List Char} (h : ¬ Blank s) : trimEnd s = indent s ++ trim s := by
  have hcut : s = indent s ++ trimStart s := (List.takeWhile_append_dropWhile).symm
  have hne : trim s ≠ [] := mt trim_eq_nil_iff.1 h
  have hback : (trimStart s).reverse.dropWhile isBlank ≠ [] := by
    intro hnil
    apply hne
    rw [trim, trimEnd, hnil]
    rfl
  have hend : trimEnd (indent s ++ trimStart s) = indent s ++ trimEnd (trimStart s) := by
    unfold trimEnd
    rw [List.reverse_append, List.dropWhile_append, if_neg (by simpa using hback),
      List.reverse_append, List.reverse_reverse]
  rw [← hcut] at hend
  exact hend

theorem trim_withoutReturn (s : List Char) : trim (withoutReturn s) = trim s := by
  unfold withoutReturn
  split
  · rename_i hlast
    obtain ⟨w, rfl⟩ := List.getLast?_eq_some_iff.1 hlast
    rw [List.dropLast_concat, trim_append_blank w (fun c hc => ?_)]
    cases List.mem_singleton.1 hc
    decide
  · rfl

/-! ## All of them -/

theorem withoutReturn_cons (c : Char) {s : List Char} (h : c = '\r' → s ≠ []) :
    withoutReturn (c :: s) = c :: withoutReturn s := by
  cases s with
  | nil =>
    have hc : c ≠ '\r' := fun hc => h hc rfl
    simp [withoutReturn, hc]
  | cons d s =>
    unfold withoutReturn
    rw [List.getLast?_cons_cons]
    split <;> simp

theorem withoutReturn_subset (s : List Char) : withoutReturn s ⊆ s := by
  unfold withoutReturn
  split
  · exact List.dropLast_subset s
  · exact List.Subset.refl s

/-- The first line goes up to the first line feed. -/
theorem lines_append {l : List Char} (hl : '\n' ∉ l) (s : List Char) :
    lines (l ++ '\n' :: s) = withoutReturn l :: lines s := by
  induction l with
  | nil => rfl
  | cons c l ih =>
    obtain ⟨hc, hl'⟩ : '\n' ≠ c ∧ '\n' ∉ l := by simpa using hl
    by_cases hreturn : c = '\r' ∧ l = []
    · obtain ⟨rfl, rfl⟩ := hreturn
      rfl
    · rw [List.cons_append, lines, ih hl', withoutReturn_cons]
      · intro hr hnil
        exact hreturn ⟨hr, hnil⟩
      · rintro rfl
        exact hc rfl
      · rintro w rfl hw
        apply hreturn
        refine ⟨rfl, ?_⟩
        cases l with
        | nil => rfl
        | cons d l =>
          obtain ⟨rfl, -⟩ := List.cons.inj hw
          simp at hl'

/-- A text without a line feed is one line, or none if it is empty. -/
theorem lines_single {l : List Char} (hl : '\n' ∉ l) : lines l = if l = [] then [] else [l] := by
  induction l with
  | nil => rfl
  | cons c l ih =>
    obtain ⟨hc, hl'⟩ : '\n' ≠ c ∧ '\n' ∉ l := by simpa using hl
    rw [lines, ih hl']
    · by_cases hnil : l = []
      · simp [hnil]
      · simp [hnil]
    · rintro rfl
      exact hc rfl
    · rintro w rfl rfl
      simp at hl'

theorem trimmedLines_single {l : List Char} (hl : '\n' ∉ l) :
    trimmedLines l = if Blank l then [] else [trim l] := by
  rw [trimmedLines, lines_single hl]
  by_cases hblank : Blank l
  · have htrim := trim_eq_nil_iff.2 hblank
    by_cases hnil : l = [] <;> simp [hnil, hblank, htrim]
  · have htrim : trim l ≠ [] := mt trim_eq_nil_iff.1 hblank
    have hne : l ≠ [] := by
      rintro rfl
      exact hblank blank_nil
    simp [hne, hblank, htrim]

theorem trimmedLines_cons {l : List Char} (hl : '\n' ∉ l) (s : List Char) :
    trimmedLines (l ++ '\n' :: s) = trimmedLines l ++ trimmedLines s := by
  rw [trimmedLines_single hl, trimmedLines, lines_append hl, List.map_cons, trim_withoutReturn,
    List.filter_cons]
  by_cases hblank : Blank l
  · simp [hblank, trim_eq_nil_iff.2 hblank, trimmedLines]
  · have htrim : trim l ≠ [] := mt trim_eq_nil_iff.1 hblank
    simp [hblank, htrim, trimmedLines]

/-- What holds of one line, and of a text with one more line in front, holds of every text. -/
theorem lines_induction {P : List Char → Prop} (single : ∀ l, '\n' ∉ l → P l)
    (append : ∀ l s, '\n' ∉ l → P s → P (l ++ '\n' :: s)) (s : List Char) : P s := by
  induction hn : s.length using Nat.strongRecOn generalizing s with
  | ind n ih =>
    by_cases hfeed : '\n' ∈ s
    · obtain ⟨l, s', rfl, hl⟩ := List.eq_append_cons_of_mem hfeed
      have hlt : s'.length < n := by
        rw [← hn, List.length_append, List.length_cons]
        omega
      exact append l s' hl (ih _ hlt s' rfl)
    · exact single s hfeed

/-- What is before a line feed and what is behind it are lines of their own. -/
theorem trimmedLines_append (s t : List Char) :
    trimmedLines (s ++ '\n' :: t) = trimmedLines s ++ trimmedLines t := by
  induction s using lines_induction with
  | single l hl => exact trimmedLines_cons hl t
  | append l s hl ih =>
    rw [List.append_assoc, List.cons_append, trimmedLines_cons hl, ih, trimmedLines_cons hl,
      List.append_assoc]

/-- A line has only characters of the text, and no line feed. -/
theorem mem_lines {s l : List Char} (h : l ∈ lines s) : l ⊆ s ∧ '\n' ∉ l := by
  induction s using lines_induction with
  | single w hw =>
    rw [lines_single hw] at h
    split at h
    · simp at h
    · rw [List.mem_singleton.1 h]
      exact ⟨List.Subset.refl w, hw⟩
  | append w s hw ih =>
    rw [lines_append hw, List.mem_cons] at h
    rcases h with rfl | h
    · have hsubset := withoutReturn_subset w
      exact ⟨fun c hc => List.mem_append_left _ (hsubset hc), fun hmem => hw (hsubset hmem)⟩
    · obtain ⟨hsubset, hfeed⟩ := ih h
      exact ⟨fun c hc => List.mem_append_right _ (List.mem_cons_of_mem _ (hsubset hc)), hfeed⟩

/-! ## Blank lines at the ends -/

/-- The texts of all lines, without the blanks around them. -/
def lineTexts (s : List Char) : List (List Char) := (lines s).map trim

/-- The texts from the first to the last one that is not empty. -/
def withoutEmptyEnds (texts : List (List Char)) : List (List Char) :=
  ((texts.dropWhile (·.isEmpty)).reverse.dropWhile (·.isEmpty)).reverse

theorem lineTexts_append {l : List Char} (hl : '\n' ∉ l) (s : List Char) :
    lineTexts (l ++ '\n' :: s) = trim l :: lineTexts s := by
  rw [lineTexts, lines_append hl, List.map_cons, trim_withoutReturn]
  rfl

theorem lineTexts_single {l : List Char} (hl : '\n' ∉ l) (hne : l ≠ []) :
    lineTexts l = [trim l] := by
  rw [lineTexts, lines_single hl, if_neg hne, List.map_singleton]

theorem lineTexts_eq_nil_iff {s : List Char} : lineTexts s = [] ↔ s = [] := by
  induction s using lines_induction with
  | single l hl =>
    by_cases hne : l = []
    · simp [hne, lineTexts, lines]
    · simp [lineTexts_single hl hne, hne]
  | append l s hl _ => simp [lineTexts_append hl]

/-- A blank in front is a line of its own or makes no difference. -/
theorem lineTexts_cons_blank {c : Char} (hc : isBlank c = true) (s : List Char) :
    lineTexts (c :: s) = [] :: lineTexts s ∨ lineTexts (c :: s) = lineTexts s := by
  have hblank : Blank [c] := by simpa [Blank] using hc
  have htrim (l : List Char) : trim (c :: l) = trim l := trim_blank_append hblank l
  by_cases hfeed : c = '\n'
  · subst hfeed
    exact .inl rfl
  have hcons {l : List Char} (hl : '\n' ∉ l) : '\n' ∉ c :: l := by
    simp [hl, Ne.symm hfeed]
  induction s using lines_induction with
  | single l hl =>
    by_cases hne : l = []
    · subst hne
      rw [lineTexts_single (hcons hl) (by simp), htrim]
      exact .inl rfl
    · rw [lineTexts_single (hcons hl) (by simp), htrim, lineTexts_single hl hne]
      exact .inr rfl
  | append l s hl _ =>
    rw [← List.cons_append, lineTexts_append (hcons hl), htrim, lineTexts_append hl]
    exact .inr rfl

theorem lineTexts_blank_append {w : List Char} (hw : Blank w) (s : List Char) :
    ∃ k, lineTexts (w ++ s) = List.replicate k [] ++ lineTexts s := by
  induction w with
  | nil => exact ⟨0, rfl⟩
  | cons c w ih =>
    obtain ⟨hc, hw⟩ := List.forall_mem_cons.1 hw
    obtain ⟨k, hk⟩ := ih hw
    rcases lineTexts_cons_blank hc (w ++ s) with hcons | hcons
    · exact ⟨k + 1, by rw [List.cons_append, hcons, hk, List.replicate_succ, List.cons_append]⟩
    · exact ⟨k, by rw [List.cons_append, hcons, hk]⟩

theorem lineTexts_blank {w : List Char} (hw : Blank w) :
    ∃ k, lineTexts w = List.replicate k [] := by
  simpa [lineTexts, lines] using lineTexts_blank_append hw []

theorem lineTexts_append_blank (s : List Char) {w : List Char} (hw : Blank w) :
    ∃ k, lineTexts (s ++ w) = lineTexts s ++ List.replicate k [] := by
  induction s using lines_induction with
  | single l hl =>
    by_cases hne : l = []
    · subst hne
      exact lineTexts_blank hw
    rw [lineTexts_single hl hne]
    by_cases hfeed : '\n' ∈ w
    · -- the line ends at the first line feed, and what follows is blank lines
      obtain ⟨w', rest, rfl, hw'⟩ := List.eq_append_cons_of_mem hfeed
      obtain ⟨hfront, hrest⟩ := List.forall_mem_append.1 hw
      obtain ⟨k, hk⟩ := lineTexts_blank (List.forall_mem_cons.1 hrest).2
      refine ⟨k, ?_⟩
      rw [← List.append_assoc, lineTexts_append (by simp [hl, hw']), trim_append_blank l hfront, hk]
      rfl
    · refine ⟨0, ?_⟩
      rw [lineTexts_single (by simp [hl, hfeed]) (by simp [hne]), trim_append_blank l hw]
      rfl
  | append l s hl ih =>
    obtain ⟨k, hk⟩ := ih
    exact ⟨k, by rw [List.append_assoc, List.cons_append, lineTexts_append hl, hk,
      lineTexts_append hl, List.cons_append]⟩

theorem trim_ne_nil {s : List Char} {c : Char} (hmem : c ∈ s) (hc : isBlank c = false) :
    trim s ≠ [] := by
  intro h
  have hblank := trim_eq_nil_iff.1 h c hmem
  simp [hc] at hblank

theorem head?_lineTexts {s : List Char} (h : StopsAt isBlank s) :
    (lineTexts s).head? ≠ some [] := by
  cases s with
  | nil => simp [lineTexts, lines]
  | cons c s =>
    rw [stopsAt_cons] at h
    have hc : c ≠ '\n' := by
      rintro rfl
      exact absurd h (by decide)
    by_cases hfeed : '\n' ∈ s
    · obtain ⟨l, rest, rfl, hl⟩ := List.eq_append_cons_of_mem hfeed
      rw [← List.cons_append, lineTexts_append (by simp [hl, hc.symm])]
      simpa using trim_ne_nil (List.mem_cons_self ..) h
    · rw [lineTexts_single (by simp [hfeed, hc.symm]) (by simp)]
      simpa using trim_ne_nil (List.mem_cons_self ..) h

theorem getLast?_lineTexts_concat (s : List Char) {c : Char} (hc : isBlank c = false) :
    (lineTexts (s ++ [c])).getLast? ≠ some [] := by
  have hfeed : c ≠ '\n' := by
    rintro rfl
    exact absurd hc (by decide)
  induction s using lines_induction with
  | single l hl =>
    rw [lineTexts_single (by simp [hl, hfeed.symm]) (by simp)]
    simpa using trim_ne_nil (by simp) hc
  | append l s hl ih =>
    have hne : lineTexts (s ++ [c]) ≠ [] := mt lineTexts_eq_nil_iff.1 (by simp)
    rwa [List.append_assoc, List.cons_append, lineTexts_append hl, List.getLast?_cons_of_ne_nil hne]

theorem getLast?_lineTexts {s : List Char} (h : StopsAt isBlank s.reverse) :
    (lineTexts s).getLast? ≠ some [] := by
  rcases List.eq_nil_or_concat s with rfl | ⟨w, c, rfl⟩
  · simp [lineTexts, lines]
  · rw [List.concat_eq_append] at *
    rw [List.reverse_append, List.reverse_singleton, List.singleton_append, stopsAt_cons] at h
    exact getLast?_lineTexts_concat w h

theorem withoutEmptyEnds_replicate {texts : List (List Char)} (hhead : texts.head? ≠ some [])
    (hlast : texts.getLast? ≠ some []) (a b : Nat) :
    withoutEmptyEnds (List.replicate a [] ++ (texts ++ List.replicate b [])) = texts := by
  have hempty (k : Nat) : ∀ t ∈ List.replicate k ([] : List Char), t.isEmpty = true := by
    intro t ht
    rw [List.eq_of_mem_replicate ht, List.isEmpty_nil]
  have hkeep {ts : List (List Char)} (h : ts.head? ≠ some []) : ts.dropWhile (·.isEmpty) = ts := by
    cases ts with
    | nil => rfl
    | cons t ts => exact List.dropWhile_cons_of_neg (by simpa using h)
  rw [withoutEmptyEnds, List.dropWhile_append_of_pos (hempty a)]
  by_cases hnil : texts = []
  · rw [hnil, List.nil_append, List.dropWhile_eq_nil_iff.2 (hempty b)]
    rfl
  · have hfront : (texts ++ List.replicate b []).head? ≠ some [] := by
      cases texts with
      | nil => exact absurd rfl hnil
      | cons t ts => exact hhead
    rw [hkeep hfront, List.reverse_append, List.reverse_replicate,
      List.dropWhile_append_of_pos (hempty b), hkeep (by rwa [List.head?_reverse]),
      List.reverse_reverse]

/-- Without the blanks around the whole text, its blank lines at either end are gone. -/
theorem lineTexts_trim (s : List Char) : lineTexts (trim s) = withoutEmptyEnds (lineTexts s) := by
  obtain ⟨behind, hbehind, hs⟩ := eq_indent_trim s
  obtain ⟨a, ha⟩ := lineTexts_blank_append (blank_indent s) (trim s ++ behind)
  obtain ⟨b, hb⟩ := lineTexts_append_blank (trim s) hbehind
  obtain ⟨hstart, hend⟩ := stopsAt_trim s
  rw [← hs, hb] at ha
  rw [ha, withoutEmptyEnds_replicate (head?_lineTexts hstart) (getLast?_lineTexts hend)]

end TaskRunner.Text
