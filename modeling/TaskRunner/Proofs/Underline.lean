import TaskRunner.Diagnostic.Basic
import TaskRunner.Proofs.TextLines

/-!
# What is underlined

A diagnostic about a whole line shows the line and a row of carets below it, which is meant to be as
long as the text of the line and to stand under it. Both the indent of the row and its length are
counted in bytes, while the row is written one character for each (`Diagnostic.render_underline`).
So the carets are under the text exactly if there are only ASCII characters up to its end.
-/
namespace TaskRunner

open Text (Blank byteLength indent trim)

/-! ## Bytes and characters -/

namespace Text

@[simp] theorem byteLength_nil : byteLength [] = 0 := rfl

@[simp] theorem byteLength_cons (c : Char) (s : List Char) :
    byteLength (c :: s) = c.utf8Size + byteLength s := rfl

@[simp] theorem byteLength_append (s t : List Char) :
    byteLength (s ++ t) = byteLength s + byteLength t := by
  induction s with
  | nil => simp
  | cons c s ih =>
    rw [List.cons_append, byteLength_cons, byteLength_cons, ih]
    omega

theorem length_le_byteLength (s : List Char) : s.length ≤ byteLength s := by
  induction s with
  | nil => simp
  | cons c s ih =>
    have hc := c.utf8Size_pos
    rw [List.length_cons, byteLength_cons]
    omega

theorem byteLength_toList (s : String) : byteLength s.toList = s.utf8ByteSize := by
  have hbytes (w : List Char) : (String.ofList w).utf8ByteSize = byteLength w := by
    induction w with
    | nil => rfl
    | cons c w ih =>
      rw [String.ofList_cons, String.utf8ByteSize_append, String.utf8ByteSize_singleton, ih,
        byteLength_cons]
  rw [← hbytes, String.ofList_toList]

/-- A text has as many bytes as characters exactly if it is ASCII. -/
theorem byteLength_eq_length_iff {s : List Char} :
    byteLength s = s.length ↔ ∀ c ∈ s, c.toNat < 128 := by
  induction s with
  | nil => simp
  | cons c s ih =>
    have hs := length_le_byteLength s
    have hc := c.utf8Size_pos
    have hone : c.utf8Size = 1 ↔ c.toNat < 128 := by
      rw [Char.utf8Size_eq_one_iff, UInt32.le_iff_toNat_le]
      exact Nat.lt_succ_iff.symm
    rw [List.forall_mem_cons, ← ih, ← hone, List.length_cons, byteLength_cons]
    omega

end Text

namespace Diagnostic

/-! ## The row below a line -/

/-- A row of carets behind some spaces. -/
def caretRow (indent width : Nat) : String :=
  spaces indent ++ String.ofList (List.replicate width '^')

/-- What is written above the row for a diagnostic about a line, and before it on its own line:
message and place, the line with its number, and the margin. -/
def aboveRow (d : Diagnostic) (text : String) : String :=
  "error: " ++ d.message ++ "\n  --> " ++ d.place ++ "\n" ++
    ("   " ++ spaces (toString d.line).length ++ " |\n") ++
    ("   " ++ toString d.line ++ " | " ++ text ++ "\n") ++
    ("   " ++ spaces (toString d.line).length ++ " | ")

/-- What is written for a diagnostic about a line, with the given row below the line. -/
def layout (d : Diagnostic) (text row : String) : String :=
  d.aboveRow text ++ row ++ ("\n" ++ (d.hint.map ("\n   = hint: " ++ ·)).getD "")

theorem render_eq_layout {d : Diagnostic} {text : String} (h : d.sourceLine = some text) :
    d.render = d.layout text (underline d.column d.columnEnd) := by
  unfold render excerpt layout aboveRow
  rw [h]
  simp only [String.append_assoc]
  rfl

theorem append_row_inj {above row row' below : String} :
    above ++ row ++ below = above ++ row' ++ below ↔ row = row' := by
  simp only [← String.toList_inj, String.toList_append, List.append_cancel_left_eq,
    List.append_cancel_right_eq]

theorem layout_inj {d : Diagnostic} {text row row' : String} :
    d.layout text row = d.layout text row' ↔ row = row' := by
  unfold layout
  exact append_row_inj

theorem caretRow_inj {m n m' n' : Nat} :
    caretRow m n = caretRow m' n' ↔ m = m' ∧ n = n' := by
  constructor
  · intro h
    have hlist := congrArg String.toList h
    simp only [caretRow, spaces, String.toList_append, String.toList_ofList] at hlist
    have hspaces := congrArg (List.count ' ') hlist
    have hcarets := congrArg (List.count '^') hlist
    simp [List.count_append, List.count_replicate] at hspaces hcarets
    exact ⟨hspaces, hcarets⟩
  · rintro ⟨rfl, rfl⟩
    rfl

theorem underline_eq_caretRow (indent : Nat) {width : Nat} (h : 0 < width) :
    underline (indent + 1) (some (indent + width + 1)) = caretRow indent width := by
  have hwidth : max 1 (indent + width + 1 - (indent + 1)) = width := by omega
  rw [underline, Option.map_some, Option.getD_some, hwidth, Nat.add_sub_cancel, caretRow]

/-- A diagnostic about a line points at the first byte behind the line's indent. -/
theorem column_atLine (message : String) {line : Nat} {source l : String}
    (hl : sourceLineAt source line = some l) :
    (atLine message line source).column = byteLength (indent l.toList) + 1 := by
  have hcut : byteLength l.toList =
      byteLength (indent l.toList) + byteLength (Text.trimStart l.toList) := by
    rw [← Text.byteLength_append]
    exact congrArg byteLength List.takeWhile_append_dropWhile.symm
  simp only [atLine, hl, Option.map_some, Option.getD_some]
  omega

/-- If the line is not blank, its text is there to be underlined, up to its last byte. -/
theorem columnEnd_atLine (message : String) {line : Nat} {source l : String}
    (hl : sourceLineAt source line = some l) (hblank : ¬ Blank l.toList) :
    0 < byteLength (trim l.toList) ∧ (atLine message line source).columnEnd =
      some (byteLength (indent l.toList) + byteLength (trim l.toList) + 1) := by
  have hend : byteLength (Text.trimEnd l.toList) =
      byteLength (indent l.toList) + byteLength (trim l.toList) := by
    rw [Text.trimEnd_eq hblank, Text.byteLength_append]
  have hpos : 0 < byteLength (trim l.toList) := by
    have hne : trim l.toList ≠ [] := mt Text.trim_eq_nil_iff.1 hblank
    have hlength := List.length_pos_iff.2 hne
    have hle := Text.length_le_byteLength (trim l.toList)
    omega
  have hcolumn := column_atLine message hl
  refine ⟨hpos, ?_⟩
  simp only [atLine, hl, Option.map_some, Option.getD_some, hend] at hcolumn ⊢
  rw [Option.filter_some, if_pos]
  simp only [decide_eq_true_eq]
  omega

/-- The columns of a line that is not blank are those of its text, in bytes. -/
theorem underline_atLine (message : String) {line : Nat} {source l : String}
    (hl : sourceLineAt source line = some l) (hblank : ¬ Blank l.toList) :
    underline (atLine message line source).column (atLine message line source).columnEnd =
      caretRow (byteLength (indent l.toList)) (byteLength (trim l.toList)) := by
  obtain ⟨hpos, hcolumnEnd⟩ := columnEnd_atLine message hl hblank
  rw [column_atLine message hl, hcolumnEnd, underline_eq_caretRow _ hpos]

/-- **What is underlined, and where.** A diagnostic about a line that is not blank has a row below
the line with a space for each byte of the line's indent and a caret for each byte of its text,
whatever file name and hint go with it. The row has a space for each character of the indent and a
caret for each character of the text exactly if all of these are ASCII. -/
theorem render_underline (message source : String) (line : Nat) (filename hint : Option String)
    {l : String} (hl : sourceLineAt source line = some l) (hblank : ¬ Blank l.toList) :
    let d := { atLine message line source with filename := filename, hint := hint }
    d.render = d.layout l (caretRow (byteLength (indent l.toList)) (byteLength (trim l.toList))) ∧
      (d.render = d.layout l (caretRow (indent l.toList).length (trim l.toList).length) ↔
        (∀ c ∈ indent l.toList, c.toNat < 128) ∧ ∀ c ∈ trim l.toList, c.toNat < 128) := by
  intro d
  have hsource : d.sourceLine = some l := by
    simp [d, atLine, hl]
  have hrender : d.render =
      d.layout l (caretRow (byteLength (indent l.toList)) (byteLength (trim l.toList))) := by
    rw [render_eq_layout hsource]
    exact congrArg (d.layout l) (underline_atLine message hl hblank)
  refine ⟨hrender, ?_⟩
  rw [hrender, layout_inj, caretRow_inj, Text.byteLength_eq_length_iff,
    Text.byteLength_eq_length_iff]

theorem render_underline_indented :
    sourceLineAt "a: b\n\t$ echo hi  \n" 2 = some "\t$ echo hi  " ∧
      (atLine "misplaced" 2 "a: b\n\t$ echo hi  \n").render =
        layout (atLine "misplaced" 2 "a: b\n\t$ echo hi  \n") "\t$ echo hi  " (caretRow 1 9) := by
  have hline : sourceLineAt "a: b\n\t$ echo hi  \n" 2 = some "\t$ echo hi  " := by decide +kernel
  refine ⟨hline, ?_⟩
  have hrow := (render_underline "misplaced" _ 2 none none hline (by decide +kernel)).1
  have hindent : byteLength (indent "\t$ echo hi  ".toList) = 1 := by decide +kernel
  have htext : byteLength (trim "\t$ echo hi  ".toList) = 9 := by decide +kernel
  rwa [hindent, htext] at hrow

/-- A command of eight characters with nine carets below it, because one of them takes two bytes. -/
theorem render_underline_too_long :
    (trim "$ echo é".toList).length = 8 ∧
      (atLine "misplaced" 1 "$ echo é").render =
        "error: misplaced\n  --> 1:1\n     |\n   1 | $ echo é\n     | ^^^^^^^^^\n" ∧
      layout (atLine "misplaced" 1 "$ echo é") "$ echo é" (caretRow 0 8) =
        "error: misplaced\n  --> 1:1\n     |\n   1 | $ echo é\n     | ^^^^^^^^\n" := by
  decide +kernel

end Diagnostic

end TaskRunner
