import TaskRunner.Proofs.Registration
import TaskRunner.Proofs.TextLines
import TaskRunner.Proofs.Underline
import TaskRunner.Usage

/-!
# The columns of the usage text

The list of targets has its names and its help texts in columns. Widths are taken in bytes and
padding is done in characters, so a name never reaches beyond its column, and all names of a column
end at one place whatever characters they have (`NameRow`). The help text starts two characters
behind that, in the row of the name (`Inline`) or in rows of its own.
-/
namespace TaskRunner

namespace Usage

open Text (StopsAt isBlank lineTexts)

/-! ## Rows -/

/-- The text has these rows, with a line feed behind each. -/
structure Rows (text : String) (rows : List (List Char)) : Prop where
  text_eq : text.toList = rows.flatMap (· ++ ['\n'])
  one_line : ∀ row ∈ rows, '\n' ∉ row

theorem Rows.append {s t : String} {rows rows' : List (List Char)} (hs : Rows s rows)
    (ht : Rows t rows') : Rows (s ++ t) (rows ++ rows') := by
  constructor
  · rw [String.toList_append, hs.text_eq, ht.text_eq, List.flatMap_append]
  · intro row hrow
    rcases List.mem_append.1 hrow with hrow | hrow
    · exact hs.one_line row hrow
    · exact ht.one_line row hrow

theorem rows_line {s : String} (hs : '\n' ∉ s.toList) : Rows (s ++ "\n") [s.toList] := by
  constructor
  · simp
  · simpa using hs

theorem rows_lines {α : Type} {f : α → String} {g : α → List Char} {xs : List α}
    (h : ∀ x ∈ xs, (f x).toList = g x ∧ '\n' ∉ g x) :
    Rows (String.join (xs.map fun x => f x ++ "\n")) (xs.map g) := by
  constructor
  · rw [String.toList_join, List.flatMap_map, List.flatMap_map]
    refine List.flatMap_congr fun x hx => ?_
    rw [String.toList_append, (h x hx).1]
    rfl
  · intro row hrow
    obtain ⟨x, hx, rfl⟩ := List.mem_map.1 hrow
    exact (h x hx).2

/-- Texts one after the other have their rows one after the other. -/
theorem rows_join {α : Type} {f : α → String} {P : α → List (List Char) → Prop} {xs : List α}
    (h : ∀ x ∈ xs, ∃ rows, Rows (f x) rows ∧ P x rows) :
    ∃ blocks, Rows (String.join (xs.map f)) blocks.flatten ∧ List.Forall₂ P xs blocks := by
  induction xs with
  | nil => exact ⟨[], ⟨rfl, by simp⟩, .nil⟩
  | cons x xs ih =>
    obtain ⟨rows, hrows, hx⟩ := h x (by simp)
    obtain ⟨blocks, hblocks, hxs⟩ := ih fun y hy => h y (by simp [hy])
    refine ⟨rows :: blocks, ?_, .cons hx hxs⟩
    rw [List.map_cons, String.join_cons, List.flatten_cons]
    exact hrows.append hblocks

/-! ## Widths -/

/-- The longest of the names has `width` bytes. -/
structure Longest (names : List String) (width : Nat) : Prop where
  le : ∀ name ∈ names, name.utf8ByteSize ≤ width
  attained : names ≠ [] → ∃ name ∈ names, name.utf8ByteSize = width

theorem longest_byteWidth (names : List String) : Longest names (byteWidth names) := by
  unfold byteWidth
  rw [List.foldl_max, Nat.zero_max]
  cases h : (names.map (·.utf8ByteSize)).max? with
  | none =>
    rw [List.max?_eq_none_iff, List.map_eq_nil_iff] at h
    subst h
    constructor <;> simp
  | some width =>
    obtain ⟨hmem, hle⟩ := List.max?_eq_some_iff.1 h
    constructor
    · intro name hname
      exact hle _ (List.mem_map_of_mem hname)
    · intro _
      simpa using hmem

theorem length_le_utf8ByteSize (s : String) : s.toList.length ≤ s.utf8ByteSize := by
  rw [← Text.byteLength_toList]
  exact Text.length_le_byteLength s.toList

/-! ## Names and texts -/

@[simp] theorem paint_false (c : Colour) : paint false c = "" := rfl

/-- A row that starts with blanks and a name, which ends behind `stop` characters. -/
inductive NameRow (stop : Nat) (name behind : List Char) : List Char → Prop
  | intro {pad : Nat} : pad + name.length = stop →
    NameRow stop name behind (List.replicate pad ' ' ++ (name ++ behind))

/-- A row that has nothing but a text behind `col` characters. -/
def textRow (col : Nat) (text : List Char) : List Char := List.replicate col ' ' ++ text

/-- A name with the first of the texts in its row, and a row for each of the others. Every text is
behind `col` characters. -/
inductive Inline (stop col : Nat) (name : List Char) : List (List Char) → List (List Char) → Prop
  | none {row : List Char} : NameRow stop name [] row → Inline stop col name [] [row]
  | some {gap : Nat} {first row : List Char} {rest : List (List Char)} : stop + gap = col →
    NameRow stop name (List.replicate gap ' ' ++ first) row →
    Inline stop col name (first :: rest) (row :: rest.map (textRow col))

/-- The lines of a help text that are shown, each without the blanks around it: all of them but for
the blank ones at the start and at the end. -/
def helpTexts : Option String → List (List Char)
  | .none => [noHelp.toList]
  | .some help => Text.withoutEmptyEnds (lineTexts help.toList)

theorem lineTexts_helpOr (help : Option String) :
    lineTexts (helpOr help).toList = helpTexts help := by
  cases help with
  | none => decide +kernel
  | some help =>
    rw [helpTexts, ← Text.lineTexts_trim, helpOr, Option.map_some, Option.getD_some, Text.trimmed,
      String.toList_ofList]

theorem stopsAt_helpOr (help : Option String) : StopsAt isBlank (helpOr help).toList := by
  cases help with
  | none => decide +kernel
  | some help =>
    rw [helpOr, Option.map_some, Option.getD_some, Text.trimmed, String.toList_ofList]
    exact (Text.stopsAt_trim _).1

theorem toList_padLeft (width : Nat) (s : String) :
    (padLeft width s).toList = List.replicate (width - s.toList.length) ' ' ++ s.toList := by
  rw [padLeft, String.toList_append, String.toList_ofList, String.length_toList]

theorem toList_behind (width : Nat) (s : String) :
    ("  " ++ padLeft width "" ++ "  " ++ s).toList = textRow (width + 4) s.toList := by
  have hpad : List.replicate (width + 4) ' ' =
      List.replicate 2 ' ' ++ List.replicate width ' ' ++ List.replicate 2 ' ' := by
    rw [List.replicate_append_replicate, List.replicate_append_replicate]
    congr 1
    omega
  rw [textRow, hpad, String.toList_append, String.toList_append, String.toList_append,
    toList_padLeft]
  simp

theorem rows_tabbed (width : Nat) {ls : List (List Char)} (hls : ∀ l ∈ ls, '\n' ∉ l) :
    Rows (tabbed width (ls.map String.ofList)) ((ls.map Text.trim).map (textRow (width + 4))) := by
  unfold tabbed
  rw [List.map_map, List.map_map]
  refine rows_lines fun l hl => ⟨?_, ?_⟩
  · rw [toList_behind, Text.trimmed, String.toList_ofList, String.toList_ofList]
    rfl
  · have htrim : '\n' ∉ Text.trim l := fun hmem => hls l hl (Text.mem_of_mem_trim hmem)
    simp [textRow, htrim]

theorem tabbedInline_nil (width : Nat) {text : String} (h : Text.lines text.toList = []) :
    tabbedInline width text = "\n" := by
  unfold tabbedInline textLines
  rw [h]
  rfl

theorem tabbedInline_cons (width : Nat) {text : String} {first : List Char}
    {rest : List (List Char)} (h : Text.lines text.toList = first :: rest)
    (hne : Text.trim first ≠ []) :
    tabbedInline width text =
      "  " ++ String.ofList (Text.trim first) ++ "\n" ++ tabbed width (rest.map String.ofList) := by
  have hfirst : (String.ofList (Text.trim first)).isEmpty = false := by
    simp [hne]
  unfold tabbedInline textLines
  rw [h]
  simp only [List.map_cons, Text.trimmed, String.toList_ofList, hfirst]
  rfl

/-- A name and the help text behind it. -/
theorem inline_tabbedInline {pad width : Nat} {head name text : String}
    (hhead : head.toList = List.replicate pad ' ' ++ name.toList)
    (hstop : pad + name.toList.length = width + 2) (hname : '\n' ∉ name.toList)
    (htext : StopsAt isBlank text.toList) :
    ∃ rows, Rows (head ++ tabbedInline width text) rows ∧
      Inline (width + 2) (width + 4) name.toList (lineTexts text.toList) rows := by
  have hrow (behind : List Char) :
      NameRow (width + 2) name.toList behind (head.toList ++ behind) := by
    rw [hhead, List.append_assoc]
    exact .intro hstop
  have hline : '\n' ∉ head.toList := by simp [hhead, hname]
  have hlines : ∀ l ∈ Text.lines text.toList, '\n' ∉ l := fun l hl => (Text.mem_lines hl).2
  have hfirst := Text.head?_lineTexts htext
  rw [lineTexts] at hfirst ⊢
  cases h : Text.lines text.toList with
  | nil =>
    rw [tabbedInline_nil width h]
    exact ⟨[head.toList], rows_line hline, .none (by simpa using hrow [])⟩
  | cons first rest =>
    rw [h] at hlines hfirst
    obtain ⟨hfeed, hrest⟩ := List.forall_mem_cons.1 hlines
    have hne : Text.trim first ≠ [] := by simpa using hfirst
    have hfirstRow : (head ++ ("  " ++ String.ofList (Text.trim first))).toList =
        head.toList ++ (List.replicate 2 ' ' ++ Text.trim first) := by
      have hgap : "  ".toList = List.replicate 2 ' ' := rfl
      rw [String.toList_append, String.toList_append, hgap, String.toList_ofList]
    have hfirstLine : '\n' ∉ (head ++ ("  " ++ String.ofList (Text.trim first))).toList := by
      have hmem : '\n' ∉ Text.trim first := fun hmem => hfeed (Text.mem_of_mem_trim hmem)
      simp [hfirstRow, hline, hmem]
    have hrows := (rows_line hfirstLine).append (rows_tabbed width hrest)
    rw [hfirstRow] at hrows
    rw [tabbedInline_cons width h hne, ← String.append_assoc, ← String.append_assoc]
    exact ⟨_, hrows, .some (by omega) (hrow _)⟩

/-! ## Targets -/

/-- How a target is shown, in a column of `width`. The names of its arguments have a column of their
own, further in. -/
inductive Block (width : Nat) (t : Target) : List (List Char) → Prop
  | plain {rows : List (List Char)} : t.args = [] →
    Inline (width + 2) (width + 4) t.name.toList (helpTexts t.help) rows → Block width t rows
  | withArgs {argWidth : Nat} {row : List Char} {blocks : List (List (List Char))} : t.args ≠ [] →
    Longest (t.args.map (·.name)) argWidth →
    NameRow (width + 2) t.name.toList (t.args.flatMap fun a => ' ' :: (bracketed a).toList) row →
    List.Forall₂ (fun a => Inline (width + argWidth + 4) (width + argWidth + 6) a.name.toList
      (helpTexts a.help)) t.args blocks →
    Block width t (row :: (helpTexts t.help).map (textRow (width + 4)) ++ blocks.flatten)

theorem inline_argument (width : Nat) {argWidth : Nat} {a : ArgDecl}
    (hwidth : a.name.utf8ByteSize ≤ argWidth) (hname : '\n' ∉ a.name.toList) :
    ∃ rows, Rows (argument false width argWidth a) rows ∧
      Inline (width + argWidth + 4) (width + argWidth + 6) a.name.toList (helpTexts a.help)
        rows := by
  have hlength := length_le_utf8ByteSize a.name
  have htext : argument false width argWidth a =
      padLeft (width + argWidth + 4) a.name ++
        tabbedInline (width + argWidth + 2) (helpOr a.help) := by
    simp [argument]
  rw [← lineTexts_helpOr, htext]
  exact inline_tabbedInline (toList_padLeft _ _) (by omega) hname (stopsAt_helpOr a.help)

theorem toList_name (width : Nat) (name : String) :
    ("  " ++ padLeft width name).toList =
      List.replicate (2 + (width - name.toList.length)) ' ' ++ name.toList := by
  rw [String.toList_append, toList_padLeft, ← List.replicate_append_replicate, List.append_assoc]
  rfl

theorem block_plain {width : Nat} {t : Target} (hwidth : t.name.utf8ByteSize ≤ width)
    (hname : '\n' ∉ t.name.toList) (hargs : t.args = []) :
    ∃ rows, Rows (target false width t) rows ∧ Block width t rows := by
  have hlength := length_le_utf8ByteSize t.name
  have hstop : 2 + (width - t.name.toList.length) + t.name.toList.length = width + 2 := by omega
  have htext : target false width t =
      "  " ++ padLeft width t.name ++ tabbedInline width (helpOr t.help) := by
    simp [target, hargs]
  obtain ⟨rows, hrows, hinline⟩ :=
    inline_tabbedInline (toList_name width t.name) hstop hname (stopsAt_helpOr t.help)
  rw [lineTexts_helpOr] at hinline
  rw [htext]
  exact ⟨rows, hrows, .plain hargs hinline⟩

theorem toList_marks (args : List ArgDecl) :
    (String.join (args.map fun a => " " ++ bracketed a)).toList =
      args.flatMap fun a => ' ' :: (bracketed a).toList := by
  rw [String.toList_join, List.flatMap_map]
  refine List.flatMap_congr fun a _ => ?_
  rw [String.toList_append]
  rfl

theorem newline_not_mem_marks {args : List ArgDecl} (hargs : ∀ a ∈ args, '\n' ∉ a.name.toList) :
    '\n' ∉ args.flatMap fun a => ' ' :: (bracketed a).toList := by
  intro hmem
  obtain ⟨a, ha, hmem⟩ := List.mem_flatMap.1 hmem
  have hname := hargs a ha
  unfold bracketed at hmem
  split at hmem <;> simp [hname] at hmem

theorem block_withArgs {width : Nat} {t : Target} (hwidth : t.name.utf8ByteSize ≤ width)
    (hname : '\n' ∉ t.name.toList) (hargs : ∀ a ∈ t.args, '\n' ∉ a.name.toList)
    (hsome : t.args ≠ []) : ∃ rows, Rows (target false width t) rows ∧ Block width t rows := by
  have hlength := length_le_utf8ByteSize t.name
  have hstop : 2 + (width - t.name.toList.length) + t.name.toList.length = width + 2 := by omega
  have hlongest := longest_byteWidth (t.args.map (·.name))
  obtain ⟨argWidth, hargWidth⟩ : ∃ n, byteWidth (t.args.map (·.name)) = n := ⟨_, rfl⟩
  rw [hargWidth] at hlongest
  obtain ⟨head, hhead⟩ : ∃ s, "  " ++ padLeft width t.name ++
    String.join (t.args.map fun a => " " ++ bracketed a) = s := ⟨_, rfl⟩
  have htext : target false width t =
      head ++ "\n" ++ tabbed width (textLines (helpOr t.help)) ++
        String.join (t.args.map (argument false width argWidth)) := by
    simp [target, hsome, hargWidth, ← hhead]
  have hrow : head.toList = List.replicate (2 + (width - t.name.toList.length)) ' ' ++
      (t.name.toList ++ t.args.flatMap fun a => ' ' :: (bracketed a).toList) := by
    rw [← hhead, String.toList_append, toList_name, toList_marks, List.append_assoc]
  have hline : '\n' ∉ head.toList := by simp [hrow, hname, newline_not_mem_marks hargs]
  have hfirst := rows_line hline
  have hlines : ∀ l ∈ Text.lines (helpOr t.help).toList, '\n' ∉ l :=
    fun l hl => (Text.mem_lines hl).2
  have hhelp := rows_tabbed width hlines
  obtain ⟨blocks, hblocks, hinline⟩ := rows_join fun a ha =>
    inline_argument width (hlongest.le a.name (List.mem_map_of_mem ha)) (hargs a ha)
  rw [hrow] at hfirst
  rw [← lineTexts, lineTexts_helpOr] at hhelp
  rw [htext]
  exact ⟨_, (hfirst.append hhelp).append hblocks, .withArgs hsome hlongest (.intro hstop) hinline⟩

theorem block_target {width : Nat} {t : Target} (hwidth : t.name.utf8ByteSize ≤ width)
    (hname : '\n' ∉ t.name.toList) (hargs : ∀ a ∈ t.args, '\n' ∉ a.name.toList) :
    ∃ rows, Rows (target false width t) rows ∧ Block width t rows := by
  by_cases hnone : t.args = []
  · exact block_plain hwidth hname hnone
  · exact block_withArgs hwidth hname hargs hnone

/-! ## The whole text -/

theorem rows_scriptHelp (help : Option String) :
    ∃ rows, Rows (scriptHelp help) rows ∧ ∀ row ∈ rows, row.head? = some ' ' := by
  cases help with
  | none => exact ⟨[], ⟨rfl, by simp⟩, by simp⟩
  | some text =>
    have hrow (l : List Char) :
        ("       " ++ String.ofList l).toList = List.replicate 7 ' ' ++ l := by
      have hgap : "       ".toList = List.replicate 7 ' ' := rfl
      rw [String.toList_append, hgap, String.toList_ofList]
    refine ⟨(Text.lines (Text.trimmed text).toList).map (List.replicate 7 ' ' ++ ·), ?_, ?_⟩
    · simp only [scriptHelp, textLines, List.map_map]
      refine rows_lines fun l hl => ⟨hrow l, ?_⟩
      simpa using (Text.mem_lines hl).2
    · intro row hmem
      obtain ⟨l, -, rfl⟩ := List.mem_map.1 hmem
      rfl

/-- Above the list is how to call the program, the help text of the script further in, and an empty
row. -/
theorem rows_above (help : Option String) :
    ∃ rows, Rows (heading false ++ scriptHelp help ++ "\n") rows ∧ "TARGETS".toList ∉ rows := by
  obtain ⟨rows, hrows, hindent⟩ := rows_scriptHelp help
  have hheading : Rows (heading false) ["Usage: doit <target> [args...]".toList] :=
    rows_line (s := "Usage: doit <target> [args...]") (by decide)
  have hempty : Rows "\n" [[]] := rows_line (s := "") (by decide)
  refine ⟨_, (hheading.append hrows).append hempty, ?_⟩
  intro hmem
  rw [List.mem_append, List.mem_append] at hmem
  rcases hmem with (hmem | hmem) | hmem
  · exact absurd hmem (by decide)
  · exact absurd (hindent _ hmem) (by decide)
  · exact absurd hmem (by decide)

end Usage

open Usage

/-- **The columns of the usage text line up.** Below the heading of the list there is a block for
every target, in ascending order of name, and nothing else. The column of names is as wide as the
longest name is in bytes. -/
theorem Registry.usage_columns {r : Registry}
    (hnames : ∀ t ∈ r.targets, '\n' ∉ t.name.toList ∧ ∀ a ∈ t.args, '\n' ∉ a.name.toList) :
    ∃ width above targets blocks, Longest r.names width ∧
      Rows (r.usage false) (above ++ "TARGETS".toList :: blocks.flatten) ∧
      "TARGETS".toList ∉ above ∧ targets.Perm r.targets ∧
      targets.Pairwise (fun a b => a.name ≤ b.name) ∧
      List.Forall₂ (Block width) targets blocks := by
  obtain ⟨width, hwidth⟩ : ∃ n, byteWidth (r.targets.map (·.name)) = n := ⟨_, rfl⟩
  have hlongest : Longest r.names width := hwidth ▸ longest_byteWidth _
  obtain ⟨above, habove, hnotMem⟩ := rows_above r.help
  have htargets : ∀ t ∈ r.sorted, ∃ rows,
      Rows (target false width t) rows ∧ Block width t rows := by
    intro t ht
    have ht := r.sorted_perm.mem_iff.1 ht
    obtain ⟨hname, hargs⟩ := hnames t ht
    exact block_target (hlongest.le t.name (List.mem_map_of_mem ht)) hname hargs
  obtain ⟨blocks, hblocks, hforall⟩ := rows_join htargets
  have hheading : Rows ("TARGETS" ++ "\n") ["TARGETS".toList] := rows_line (by decide)
  have htext : r.usage false = heading false ++ scriptHelp r.help ++ "\n" ++
      (("TARGETS" ++ "\n") ++ String.join (r.sorted.map (target false width))) := by
    simp only [usage, paint_false, hwidth, String.append_empty, String.append_assoc]
  rw [htext]
  exact ⟨width, above, r.sorted, blocks, hlongest, habove.append (hheading.append hblocks), hnotMem,
    r.sorted_perm, r.sorted_le, hforall⟩

/-- Names with characters of more than one byte, and a help text with blank lines around it and in
it. -/
def umlauts : Registry :=
  ⟨some "All of it.",
    [⟨"über", none, [⟨"größe", true, some "in metres\n or feet"⟩, ⟨"x", false, none⟩], .empty, []⟩,
      ⟨"ab", some "\n one\n\n  two \n", [], .empty, []⟩]⟩

theorem usage_columns_umlauts :
    (∀ t ∈ umlauts.targets, '\n' ∉ t.name.toList ∧ ∀ a ∈ t.args, '\n' ∉ a.name.toList) ∧
      ∃ width above targets blocks, Longest umlauts.names width ∧
        Rows (umlauts.usage false) (above ++ "TARGETS".toList :: blocks.flatten) ∧
        "TARGETS".toList ∉ above ∧ targets.Perm umlauts.targets ∧
        targets.Pairwise (fun a b => a.name ≤ b.name) ∧
        List.Forall₂ (Block width) targets blocks := by
  have hnames : ∀ t ∈ umlauts.targets,
      '\n' ∉ t.name.toList ∧ ∀ a ∈ t.args, '\n' ∉ a.name.toList := by decide
  exact ⟨hnames, Registry.usage_columns hnames⟩

end TaskRunner
